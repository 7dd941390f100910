import NetworkExperiment.Lib.Projection
import NetworkExperiment.Server.Process

namespace NetworkExperiment

open ActionSystems ByteBuffers DescriptorTables

/-!
# One client and another

A connection, seen without the numbers of its descriptors, is to move as if it were the only one:

* `Connection.eraseFds` / `next_eraseFds` — the numbers of its descriptors do not matter to it;
* `Connection.alone` — a client that is alone with the server;
* `ServerProcess.Undisturbed` — steps that do not reach another connection: no thread ends the
  process, and no call is refused for lack of descriptors;
* `projectsTo_alone` — by such steps the process runs each connection as if it were alone;
* `connection_isolated` — two runs made of such steps agree on what is sent on a connection, however
  different the other clients are.
-/

/-! ### A connection without its descriptors -/

namespace ServerThread

variable (s : ServerThread)

/-- The thread without the numbers of its descriptors: two connections that differ in these only
    are the same to their clients. -/
def eraseFds : ServerThread := { s with sockfd := 0, fd := 0 }

/-- No message holds the number of a descriptor, -/
theorem compose_eraseFds (t : ProtoType) (pc : ServerPc) :
    s.eraseFds.compose t pc = (s.compose t pc).eraseFds := by
  simp only [compose, eraseFds]

/-- no test of the thread looks at one, -/
theorem loopHead_eraseFds : s.eraseFds.loopHead = s.loopHead.eraseFds := by
  unfold loopHead exitConnection
  rw [apply_ite eraseFds, ← compose_eraseFds]
  rfl

/-- The loop goes on, or it has ended. -/
theorem loopHead_pc : s.loopHead.pc ≠ .assertFailed := by
  unfold loopHead
  split <;> simp

/-- and so what comes behind each call is the same: behind the request, -/
theorem afterReadRequest_eraseFds (buffer : Buffer) :
    s.eraseFds.afterReadRequest buffer = (s.afterReadRequest buffer).eraseFds := by
  unfold afterReadRequest
  dsimp only
  rw [apply_ite eraseFds, ← compose_eraseFds]
  simp only [eraseFds]

/-- behind `access`, -/
theorem afterAccess_eraseFds (ok : Bool) :
    s.eraseFds.afterAccess ok = (s.afterAccess ok).eraseFds := by
  unfold afterAccess exitConnection
  rw [apply_ite eraseFds, ← compose_eraseFds]
  simp only [eraseFds]

/-- behind `open`, of which only matters whether it has found a descriptor, -/
theorem afterOpen_eraseFds (fd : Option Fd) :
    s.eraseFds.afterOpen (fd.map fun _ => 0) = (s.afterOpen fd).eraseFds := by
  cases fd with
  | some fd => simp only [Option.map_some, afterOpen, eraseFds]
  | none => exact s.compose_eraseFds .fileComplete .sendComplete

/-- behind `fdopen`, -/
theorem afterFdopen_eraseFds (content : List UInt8) :
    s.eraseFds.afterFdopen content = (s.afterFdopen content).eraseFds :=
  loopHead_eraseFds { s with readfile := ⟨content, false⟩ }

/-- behind `fread`, -/
theorem afterFread_eraseFds : s.eraseFds.afterFread = s.afterFread.eraseFds := by
  unfold afterFread exitConnection
  dsimp only
  rw [apply_ite eraseFds, ← compose_eraseFds, ← compose_eraseFds]
  rfl

/-- and behind an acknowledgement. -/
theorem afterReadAck_eraseFds (buffer : Buffer) :
    s.eraseFds.afterReadAck buffer = (s.afterReadAck buffer).eraseFds := by
  unfold afterReadAck
  dsimp only
  rw [apply_ite eraseFds, ← loopHead_eraseFds]
  simp only [eraseFds]

end ServerThread

namespace Connection

variable {c c' : Connection} {fs : FileSystem} {peer : Peer} {fd : Option Fd}

/-- The connection without the numbers of its descriptors. -/
def eraseFds (c : Connection) : Connection := { c with thread := c.thread.eraseFds }

/-- What is read comes from the client. -/
theorem readBytes_eraseFds (next : ServerThread) :
    c.eraseFds.readBytes peer next.eraseFds = (c.readBytes peer next).map eraseFds := by
  unfold readBytes
  rw [apply_ite (Option.map eraseFds)]
  rfl

/-- What is sent, and whether the client takes it, is the same. -/
theorem sendBytes_eraseFds (next : ServerThread) :
    c.eraseFds.sendBytes peer next.eraseFds = (c.sendBytes peer next).eraseFds := by
  unfold sendBytes
  cases hsend : peer.send c.sends <;> simp only [eraseFds, ServerThread.eraseFds, hsend]

/-- The file that the thread asks for can be read. -/
def Readable (fs : FileSystem) (c : Connection) : Prop := (fs c.thread.filename).isReadable

instance : Decidable (c.Readable fs) := inferInstanceAs (Decidable (_ = true))

/-- The next call is the same for other descriptors, unless one is refused to `open`: a file that
    could be read is then taken for one that cannot. -/
theorem next_eraseFds (hfd : c.thread.pc = .openFile → c.Readable fs → fd ≠ none) :
    c.eraseFds.next fs peer (some 0) = (c.next fs peer fd).map eraseFds := by
  by_cases hkilled : c.killed
  · unfold next
    rw [if_pos hkilled, if_pos (show c.eraseFds.killed from hkilled)]
    rfl
  have hkilled' : ¬ c.eraseFds.killed := hkilled
  unfold next
  rw [if_neg hkilled, if_neg hkilled']
  dsimp only
  rw [show c.eraseFds.thread = c.thread.eraseFds from rfl,
    show c.thread.eraseFds.pc = c.thread.pc from rfl,
    show c.thread.eraseFds.filename = c.thread.filename from rfl]
  -- each call commutes with the erasure, one lemma for each function of the thread
  cases hpc : c.thread.pc with
  | readRequest =>
    dsimp only
    rw [ServerThread.afterReadRequest_eraseFds]
    exact readBytes_eraseFds _
  | sendAck => exact congrArg some (sendBytes_eraseFds c.thread.afterSendAck)
  | access =>
    dsimp only
    rw [ServerThread.afterAccess_eraseFds]
    rfl
  | openFile =>
    cases hfile : fs c.thread.filename with
    | readable content =>
      cases fd with
      | some fd => rfl
      | none =>
        -- excluded, as the file would be taken for one that cannot be opened
        exact absurd rfl (hfd hpc (by rw [Readable, hfile]; rfl))
    | noAccess | noOpen =>
      exact congrArg (fun s => some { c with thread := s }) (c.thread.afterOpen_eraseFds none)
  | fdopen =>
    cases hfile : fs c.thread.filename with
    | readable content =>
      dsimp only
      rw [ServerThread.afterFdopen_eraseFds]
      rfl
    | noAccess | noOpen => rfl
  | fread =>
    dsimp only
    rw [ServerThread.afterFread_eraseFds]
    rfl
  | sendBlock => exact congrArg some (sendBytes_eraseFds c.thread.afterSendBlock)
  | readAck =>
    dsimp only
    rw [ServerThread.afterReadAck_eraseFds]
    exact readBytes_eraseFds _
  | sendComplete => exact congrArg some (sendBytes_eraseFds c.thread.afterSendComplete)
  | closeSock => rfl
  | returned | assertFailed => rfl

/-- Whether there is a next call does not depend on the descriptor either: a refused `open` returns
    too. -/
theorem next_eq_none (h : c.next fs peer fd = none) (fd' : Option Fd) :
    c.next fs peer fd' = none := by
  unfold next at h ⊢
  by_cases hkilled : c.killed
  · rw [if_pos hkilled]
  rw [if_neg hkilled] at h ⊢
  cases hpc : c.thread.pc with
  | openFile =>
    -- `open` always returns
    simp only [hpc] at h
    split at h <;> exact absurd h (by simp)
  | returned | assertFailed => simp only [hpc]
  | _ => simpa only [hpc] using h

/-! ### Calls that end the process -/

/-- A thread that has ended the process makes no call. -/
theorem next_of_fatal (h : c.Fatal) : c.next fs peer fd = none := by
  unfold next
  rcases h with hkilled | hpc
  · rw [if_pos hkilled]
  · split
    · rfl
    · simp only [hpc]

/-- The next call does not end the process: the message read, or what is in the buffer if none is,
    has the type that the assertion behind the call expects, and the client takes what is sent. -/
structure KeepsRunning (peer : Peer) (c : Connection) : Prop where
  request : c.thread.pc = .readRequest →
    (unmarshall c.received).msgType = ProtoType.reqFile.code
  ack : c.thread.pc = .readAck →
    (unmarshall c.received).msgType = ProtoType.fileBlockAck.code
  pipe : c.thread.pc ∈ [.sendAck, .sendBlock, .sendComplete] →
    ¬ (peer.send c.sends).breaksPipe

instance : Decidable (c.KeepsRunning peer) :=
  decidable_of_iff (_ ∧ _ ∧ _) ⟨fun ⟨h₁, h₂, h₃⟩ => ⟨h₁, h₂, h₃⟩, fun h => ⟨h.1, h.2, h.3⟩⟩

/-- What is read ends the process only by the assertion behind it. -/
theorem readBytes_fatal {next : ServerThread} (h : c.readBytes peer next = some c') :
    c'.Fatal ↔ c.killed = true ∨ next.pc = .assertFailed := by
  unfold readBytes at h
  split_ifs at h
  rw [← Option.some.inj h]
  rfl

/-- What is sent does so if the client is gone, and by no assertion. -/
theorem sendBytes_fatal {next : ServerThread} (hpipe : ¬ (peer.send c.sends).breaksPipe) :
    (c.sendBytes peer next).Fatal ↔ c.killed = true ∨ next.pc = .assertFailed := by
  unfold sendBytes
  cases hsend : peer.send c.sends with
  | sent | failed => rfl
  | brokenPipe => exact absurd (by rw [hsend]; rfl) hpipe

/-- Such a call leaves the process running.  The cases are the calls of the thread, in the order of
    `next`. -/
theorem KeepsRunning.not_fatal (h : c.KeepsRunning peer) (hnext : c.next fs peer fd = some c') :
    ¬ c'.Fatal := by
  unfold next at hnext
  split_ifs at hnext with hkilled
  dsimp only at hnext
  split at hnext
  case h_1 hpc =>
    -- the request
    rw [readBytes_fatal hnext]
    simp [hkilled, ServerThread.afterReadRequest, h.request hpc]
  case h_2 hpc =>
    obtain rfl := Option.some.inj hnext
    -- its acknowledgement: the client is there
    rw [sendBytes_fatal (h.pipe (by simp [hpc]))]
    simp [hkilled, ServerThread.afterSendAck]
  case h_3 hpc =>
    obtain rfl := Option.some.inj hnext
    unfold Fatal ServerThread.afterAccess
    dsimp only
    split <;> simp [hkilled]
  case h_4 hpc =>
    split at hnext
    · obtain rfl := Option.some.inj hnext
      simp [Fatal, hkilled, ServerThread.afterOpen]
    · obtain rfl := Option.some.inj hnext
      simp [Fatal, hkilled, ServerThread.afterOpen]
  case h_5 hpc =>
    split at hnext
    · obtain rfl := Option.some.inj hnext
      unfold Fatal ServerThread.afterFdopen
      simpa [hkilled] using ServerThread.loopHead_pc _
    · exact absurd hnext (by simp)
  case h_6 hpc =>
    obtain rfl := Option.some.inj hnext
    unfold Fatal ServerThread.afterFread
    dsimp only
    split <;> simp [hkilled]
  case h_7 hpc =>
    obtain rfl := Option.some.inj hnext
    rw [sendBytes_fatal (h.pipe (by simp [hpc]))]
    simp [hkilled, ServerThread.afterSendBlock]
  case h_8 hpc =>
    rw [readBytes_fatal hnext]
    -- the acknowledgement of a block: its assertion holds, and the loop goes on or ends
    unfold ServerThread.afterReadAck
    dsimp only
    rw [if_pos (h.ack hpc)]
    simpa [hkilled] using ServerThread.loopHead_pc _
  case h_9 hpc =>
    obtain rfl := Option.some.inj hnext
    rw [sendBytes_fatal (h.pipe (by simp [hpc]))]
    simp [hkilled, ServerThread.afterSendComplete]
  case h_10 hpc =>
    obtain rfl := Option.some.inj hnext
    simp [Fatal, hkilled, ServerThread.afterClose]
  case h_11 | h_12 => exact absurd hnext (by simp)

/-! ### What is sent -/

/-- A call adds to what has been sent, and takes nothing back. -/
theorem output_next (hnext : c.next fs peer fd = some c') : c.output <+: c'.output := by
  have hread {next : ServerThread} (h : c.readBytes peer next = some c') :
      c.output <+: c'.output := by
    unfold readBytes at h
    split_ifs at h
    rw [← Option.some.inj h]
  have hsend (next : ServerThread) : c.output <+: (c.sendBytes peer next).output := by
    unfold sendBytes
    dsimp only
    split <;> exact List.prefix_append _ _
  unfold next at hnext
  split_ifs at hnext
  dsimp only at hnext
  split at hnext
  case h_1 | h_8 => exact hread hnext
  case h_2 | h_7 | h_9 =>
    rw [← Option.some.inj hnext]
    exact hsend _
  case h_3 | h_6 | h_10 => rw [← Option.some.inj hnext]
  case h_4 =>
    split at hnext
    · rw [← Option.some.inj hnext]
    · rw [← Option.some.inj hnext]
  case h_5 =>
    split at hnext
    · rw [← Option.some.inj hnext]
    · exact absurd hnext (by simp)
  case h_11 | h_12 => exact absurd hnext (by simp)

/-! ### A connection alone -/

/-- The next step for a client that is alone with the server: its connection is accepted, then its
    thread makes one call after the other. -/
def alone (fs : FileSystem) (peer : Peer) : Option Connection → Option (Option Connection)
  | none => if peer.aborts then none else some (some (start 0 peer))
  | some c => (c.next fs peer (some 0)).map some

/-- What has been sent to a client. -/
def sentTo (c : Option Connection) : List UInt8 := (c.map output).getD []

/-- As time goes on, more has been sent: what was sent earlier is the beginning of it. -/
theorem sentTo_prefix {c c' : Option Connection}
    (h : StateTransition.Reaches (alone fs peer) c c') : sentTo c <+: sentTo c' := by
  induction h with
  | refl => exact List.prefix_rfl
  | @tail d d' _ hstep ih =>
    refine ih.trans ?_
    cases d with
    | none => exact List.nil_prefix
    | some d =>
      obtain ⟨d', hnext, rfl⟩ := Option.map_eq_some_iff.mp hstep
      exact output_next hnext

/-- The thread has returned, and the last that it has sent is `FILE_COMPLETE`. -/
def Complete (c : Connection) : Prop :=
  c.thread.pc = .returned ∧ (frame (.blank .fileComplete)).toList <:+ c.output

instance (c : Connection) : Decidable c.Complete := inferInstanceAs (Decidable (_ ∧ _))

end Connection

/-! ### The process seen from one connection -/

namespace ServerProcess

variable {p p' : ServerProcess} {w w' : ServerSetting} {i j : ℕ} {a : ServerAction}
  {c c' : Connection}

/-- A connection of the process, without the numbers of its descriptors. -/
def view (i : ℕ) (p : ServerProcess) : Option Connection :=
  (p.conns.lookup i).map Connection.eraseFds

/-- What the server has sent on a connection. -/
def output (p : ServerProcess) (i : ℕ) : List UInt8 := Connection.sentTo (p.conns.lookup i)

/-- The server has completed a connection. -/
def Completed (p : ServerProcess) (i : ℕ) : Prop := ∃ c ∈ p.conns.lookup i, c.Complete

/-- The server does nothing more for a client: it neither accepts its connection nor makes a call
    for it. -/
def Halted (w : ServerSetting) (i : ℕ) (p : ServerProcess) : Prop :=
  (serverProcess w).act p (.accept i) = none ∧ (serverProcess w).act p (.step i) = none

/-- A step that cannot reach connection `i`: its thread has returned; or the step does not end the
    process for another connection's sake, and `accept` and `open` find a descriptor. -/
def Undisturbed (w : ServerSetting) (i : ℕ) (p : ServerProcess) (a : ServerAction) : Prop :=
  p.Returned i ∨
    match a with
    | .accept j => ¬ p.table.Full w.limit ∧ (j ≠ i → ¬ (w.peers j).aborts)
    | .step j => ∀ c ∈ p.conns.lookup j,
        if j = i then c.thread.pc = .openFile → c.Readable w.fs → ¬ p.table.Full w.limit
        else c.KeepsRunning (w.peers j)

instance : Decidable (p.Completed i) :=
  inferInstanceAs (Decidable (∃ c ∈ p.conns.lookup i, c.Complete))

instance : Decidable (p.Halted w i) :=
  decidable_of_iff (((serverProcess w).act p (.accept i)).isNone ∧
    ((serverProcess w).act p (.step i)).isNone) (by simp [Halted])

instance : Decidable (p.Returned i) :=
  inferInstanceAs (Decidable (∃ c ∈ p.conns.lookup i, c.thread.pc = .returned))

instance : Decidable (p.Undisturbed w i a) :=
  match a with
  | .accept _ => inferInstanceAs (Decidable (_ ∨ _ ∧ _))
  | .step _ => inferInstanceAs (Decidable (_ ∨ ∀ c ∈ p.conns.lookup _, _))

theorem view_insert_self (h : p'.conns = p.conns.insert i c') :
    p'.view i = some c'.eraseFds := by
  unfold view
  rw [h, AList.lookup_insert]
  rfl

/-- What happens to a connection does not show on another, as each has an entry of its own. -/
theorem view_insert_of_ne (h : p'.conns = p.conns.insert j c') (hj : j ≠ i) :
    p'.view i = p.view i := by
  unfold view
  rw [h, AList.lookup_insert_ne (Ne.symm hj)]

/-- What has been sent does not depend on the descriptors, -/
theorem sentTo_view : Connection.sentTo (p.view i) = p.output i := by
  unfold view output Connection.sentTo
  rw [Option.map_map]
  rfl

/-- nor does whether the connection is completed. -/
theorem completed_iff_view : p.Completed i ↔ ∃ c ∈ p.view i, c.Complete := by
  unfold view Completed
  cases p.conns.lookup i with
  | none => simp
  | some c =>
    simp only [Option.mem_some_iff, exists_eq_left', Option.map_some]
    rfl

/-! ### The steps of the process -/

/-- A client alone with the server: when the thread has returned, nothing more is done for it. -/
theorem alone_of_returned (h : p.Returned i) :
    Connection.alone w.fs (w.peers i) (p.view i) = none := by
  obtain ⟨c, hc, hpc⟩ := h
  unfold view
  rw [hc]
  have hpc' : c.eraseFds.thread.pc = .returned := hpc
  simp [Connection.alone, Connection.next, hpc']

/-- A call of the connection's own thread is its next step, where `open` finds a descriptor. -/
theorem view_step_self (hc : p.conns.lookup i = some c)
    (hopen : c.thread.pc = .openFile → c.Readable w.fs → ¬ p.table.Full w.limit)
    (hstep : p.stepConnection w i c = some p') :
    Connection.alone w.fs (w.peers i) (p.view i) = some (p'.view i) := by
  obtain ⟨c', hnext, rfl⟩ := Option.map_eq_some_iff.mp hstep
  -- a table that is not full has a free descriptor
  have hfree : c.thread.pc = .openFile → c.Readable w.fs → p.free w.limit ≠ none := by
    intro hpc hreadable
    unfold free
    rw [if_neg (hopen hpc hreadable)]
    simp
  have hview : p.view i = some c.eraseFds := by
    unfold view
    rw [hc]
    rfl
  rw [hview]
  show (c.eraseFds.next w.fs (w.peers i) (some 0)).map some = _
  rw [Connection.next_eraseFds hfree, hnext]
  exact congrArg some (view_insert_self rfl).symm

/-- The acceptance of the connection is its first step, unless the client is gone. -/
theorem view_accept_self (hnew : i ∉ p.conns) (hfull : ¬ p.table.Full w.limit)
    (haborts : ¬ (w.peers i).aborts) :
    Connection.alone w.fs (w.peers i) (p.view i) = some ((p.acceptConnection w i).view i) := by
  have hview : p.view i = none := by
    unfold view
    rw [AList.lookup_eq_none.mpr hnew]
    rfl
  unfold acceptConnection free
  rw [if_neg haborts, if_neg hfull, hview]
  show (if (w.peers i).aborts then none else _) = _
  have hstart : Connection.start 0 (w.peers i)
      = (Connection.start p.table.lowest (w.peers i)).eraseFds := rfl
  rw [if_neg haborts, hstart]
  exact congrArg some (view_insert_self rfl).symm

/-- The acceptance of a client that is gone shows on no connection. -/
theorem view_accept_of_aborts (haborts : (w.peers i).aborts) :
    (p.acceptConnection w i).view j = p.view j := by
  unfold acceptConnection
  rw [if_pos haborts]
  rfl

/-- A step for another connection does not show. -/
theorem view_of_other (hact : (serverProcess w).act p a = some p')
    (ha : a ≠ .accept i ∧ a ≠ .step i) : p'.view i = p.view i := by
  rcases serverProcess_cases hact with ⟨-, ⟨j, rfl, -, rfl⟩ | ⟨j, c, rfl, -, hstep⟩⟩
  · have hj : j ≠ i := by
      rintro rfl
      exact ha.1 rfl
    unfold acceptConnection
    split
    · rfl
    · split
      · exact view_insert_of_ne rfl hj
      · rfl
  · have hj : j ≠ i := by
      rintro rfl
      exact ha.2 rfl
    obtain ⟨c', -, rfl⟩ := Option.map_eq_some_iff.mp hstep
    exact view_insert_of_ne rfl hj

/-- An undisturbed acceptance finds a descriptor, -/
theorem Undisturbed.not_full (h : p.Undisturbed w i (.accept i)) (hnew : i ∉ p.conns) :
    ¬ p.table.Full w.limit := by
  rcases h with ⟨c, hc, -⟩ | ⟨hfull, -⟩
  · exact absurd hc (by simp [AList.lookup_eq_none.mpr hnew])
  · exact hfull

/-- and so does an undisturbed `open`. -/
theorem Undisturbed.openFile (h : p.Undisturbed w i (.step i)) (hc : p.conns.lookup i = some c)
    (hpc : c.thread.pc = .openFile) (hreadable : c.Readable w.fs) : ¬ p.table.Full w.limit := by
  rcases h with ⟨d, hd, hreturned⟩ | h
  · obtain rfl := Option.some.inj (hc.symm.trans hd)
    exact absurd hreturned (by simp [hpc])
  · have hopen := h c hc
    rw [if_pos rfl] at hopen
    exact hopen hpc hreadable

/-- An undisturbed step is the next step of the connection, or it does not show. -/
theorem projectsTo_alone (w : ServerSetting) (i : ℕ) : (serverProcess w).ProjectsTo
    (Undisturbed w i) (view i) (Connection.alone w.fs (w.peers i)) := by
  intro p a p' hok hact
  by_cases ha : a ≠ .accept i ∧ a ≠ .step i
  · exact .inl (view_of_other hact ha)
  rcases serverProcess_cases hact with ⟨-, ⟨j, rfl, hnew, rfl⟩ | ⟨j, c, rfl, hc, hstep⟩⟩
  · obtain rfl : j = i := by
      by_contra hj
      exact ha ⟨by simpa using hj, by simp⟩
    -- a client that is gone ends the process, and is as before
    by_cases haborts : (w.peers j).aborts = true
    · exact .inl (view_accept_of_aborts haborts)
    · exact .inr (view_accept_self hnew (hok.not_full hnew) haborts)
  · obtain rfl : j = i := by
      by_contra hj
      exact ha ⟨by simp, by simpa using hj⟩
    exact .inr (view_step_self hc (hok.openFile hc) hstep)

/-- If an undisturbed step ends the process, nothing was left to do for the connection. -/
theorem alone_of_exited (hok : p.Undisturbed w i a) (hact : (serverProcess w).act p a = some p')
    (hexited : p'.exited = true) : Connection.alone w.fs (w.peers i) (p'.view i) = none := by
  by_cases hreturned : p.Returned i
  · -- the connection is as it was
    rcases projectsTo_alone w i hok hact with hsame | hnext
    · rw [hsame]
      exact alone_of_returned hreturned
    · rw [alone_of_returned hreturned] at hnext
      exact absurd hnext (by simp)
  -- otherwise only the connection's own step can have ended the process
  have hok := hok.resolve_left hreturned
  rcases serverProcess_cases hact with ⟨hrunning, ⟨j, rfl, hnew, rfl⟩ | ⟨j, c, rfl, hc, hstep⟩⟩
  · -- `accept` has failed, and not for lack of descriptors
    have haborts : (w.peers j).aborts = true := by
      by_contra haborts
      unfold acceptConnection free at hexited
      rw [if_neg haborts, if_neg hok.1] at hexited
      exact absurd hexited (by simp [hrunning])
    obtain rfl : j = i := by
      by_contra hj
      exact hok.2 hj haborts
    rw [view_accept_of_aborts haborts]
    unfold view
    rw [AList.lookup_eq_none.mpr hnew]
    exact if_pos haborts
  · obtain ⟨c', hnext, rfl⟩ := Option.map_eq_some_iff.mp hstep
    have hfatal : c'.Fatal := of_decide_eq_true hexited
    have hkeeps := hok c hc
    by_cases hj : j = i
    · subst hj
      rw [view_insert_self rfl]
      have hfatal' : c'.eraseFds.Fatal := hfatal
      exact congrArg (Option.map some) (Connection.next_of_fatal hfatal')
    · -- another connection has kept the process running
      rw [if_neg hj] at hkeeps
      exact absurd hfatal (hkeeps.not_fatal hnext)

/-- In an undisturbed run, the server halts for a connection only when nothing is left to do. -/
theorem alone_of_halted {as : List ServerAction} {withLogFile : Bool}
    (hok : (serverProcess w).StepsMeet (Undisturbed w i) as (.start withLogFile))
    (hrun : (serverProcess w).run as (.start withLogFile) = some p) (hhalted : p.Halted w i) :
    Connection.alone w.fs (w.peers i) (p.view i) = none := by
  cases hexited : p.exited with
  | true =>
    have hI : (serverProcess w).InvariantOn (Undisturbed w i) fun r =>
        r.exited = true → Connection.alone w.fs (w.peers i) (r.view i) = none :=
      fun _ _ _ _ hok hact => alone_of_exited hok hact
    exact hI.run (by simp [start]) hok hrun hexited
  | false =>
    -- the process runs, so it is the thread that waits or has returned
    obtain ⟨haccept, hstep⟩ := hhalted
    unfold serverProcess at haccept hstep
    dsimp only at haccept hstep
    rw [if_neg (by simp [hexited])] at haccept hstep
    cases hc : p.conns.lookup i with
    | none =>
      rw [if_neg (AList.lookup_eq_none.mp hc)] at haccept
      exact absurd haccept (by simp)
    | some c =>
      rw [hc] at hstep
      -- the connection is as if it were alone, with no call to make
      have hnext := Connection.next_eq_none (Option.map_eq_none_iff.mp hstep) (some 0)
      unfold view
      rw [hc]
      show (c.eraseFds.next w.fs (w.peers i) (some 0)).map some = none
      rw [Connection.next_eraseFds (fun _ _ => Option.some_ne_none 0), hnext]
      rfl

end ServerProcess

open ServerProcess

/-- **Isolation.**  Two runs of the server in which the client of connection `i` does the same, and
    the others whatever they like, short of a step that ends the process or uses up the
    descriptors.  What is sent on connection `i` in one run is the beginning of what is sent in the
    other; and when the server has done what it does for the connection, it is the same, and it
    is completed in both or in none. -/
theorem connection_isolated {w w' : ServerSetting} {i : ℕ} (hfs : w.fs = w'.fs)
    (hpeer : w.peers i = w'.peers i) (withLogFile withLogFile' : Bool)
    (as as' : List ServerAction) {p p' : ServerProcess}
    (hrun : (serverProcess w).run as (.start withLogFile) = some p)
    (hrun' : (serverProcess w').run as' (.start withLogFile') = some p')
    (hok : (serverProcess w).StepsMeet (Undisturbed w i) as (.start withLogFile))
    (hok' : (serverProcess w').StepsMeet (Undisturbed w' i) as' (.start withLogFile')) :
    (p.output i <+: p'.output i ∨ p'.output i <+: p.output i) ∧
      (p.Halted w i → p'.Halted w' i →
        p.output i = p'.output i ∧ (p.Completed i ↔ p'.Completed i)) := by
  have hproject := projectsTo_alone w i
  have hproject' := projectsTo_alone w' i
  rw [← hfs, ← hpeer] at hproject'
  have hstart : (start withLogFile).view i = (start withLogFile').view i := rfl
  constructor
  · rw [← sentTo_view, ← sentTo_view]
    rcases hproject.reaches_or_reaches hproject' hstart hok hok' hrun hrun' with hreach | hreach
    · exact .inl (Connection.sentTo_prefix hreach)
    · exact .inr (Connection.sentTo_prefix hreach)
  · intro hhalted hhalted'
    have hfinal := alone_of_halted hok hrun hhalted
    have hfinal' := alone_of_halted hok' hrun' hhalted'
    rw [← hfs, ← hpeer] at hfinal'
    have hview : p.view i = p'.view i :=
      hproject.eq_of_final hproject' hstart hok hok' hrun hrun' hfinal hfinal'
    rw [← sentTo_view, ← sentTo_view, completed_iff_view, completed_iff_view, hview]
    exact ⟨rfl, Iff.rfl⟩

/-- A client that sends one message, and takes what it is sent. -/
def Peer.sending (t : ProtoType) : Peer where
  aborts := false
  input := (frame (.blank t)).toList
  ends := false
  send := fun _ => .sent
  garbage := .zero _

/-- A client that sends nothing. -/
def Peer.silent : Peer := { Peer.sending .reqFile with input := [] }

/-- A client that is gone before it is answered. -/
def Peer.vanishing : Peer := { Peer.sending .reqFile with send := fun _ => .failed 0 }

/-- A client that asks for a missing file, and another one. -/
def twoClients (other : Peer) : ServerSetting where
  fs := fun _ => .noAccess
  limit := 1024
  peers := fun i => if i = 0 then .sending .reqFile else other

theorem twoClients_fs (other other' : Peer) : (twoClients other).fs = (twoClients other').fs := rfl

theorem twoClients_peers (other other' : Peer) :
    (twoClients other).peers 0 = (twoClients other').peers 0 := rfl

/-- Next to a client that sends nothing, the other one is served to the end. -/
theorem served_beside_silent : ∃ p,
    (serverProcess (twoClients .silent)).run (.accept 0 :: .accept 1 :: List.replicate 5 (.step 0))
      (.start false) = some p ∧
    p.Halted (twoClients .silent) 0 ∧ p.output 0 ≠ [] ∧ p.Completed 0 := by
  have hrun : ((serverProcess (twoClients .silent)).run
      (.accept 0 :: .accept 1 :: List.replicate 5 (.step 0)) (.start false)).any fun p =>
        decide (p.Halted (twoClients .silent) 0 ∧ p.output 0 ≠ [] ∧ p.Completed 0) := by
    decide +kernel
  obtain ⟨p, hrun, hp⟩ := (Option.any_eq_true _ _).mp hrun
  exact ⟨p, hrun, of_decide_eq_true hp⟩

/-- The other client sends nothing in one run, and vanishes in the other. -/
theorem connection_isolated_vanishing : ∃ p p',
    (serverProcess (twoClients .silent)).run
      (.accept 0 :: .accept 1 :: List.replicate 5 (.step 0)) (.start false) = some p ∧
    (serverProcess (twoClients .vanishing)).run
      (.accept 1 :: .accept 0 :: .step 0 :: .step 1 :: .step 1 :: List.replicate 4 (.step 0))
      (.start false) = some p' ∧
    p.Completed 0 ∧ p'.Completed 0 ∧ p.output 0 = p'.output 0 := by
  have hrun' : ((serverProcess (twoClients .vanishing)).run
      (.accept 1 :: .accept 0 :: .step 0 :: .step 1 :: .step 1 :: List.replicate 4 (.step 0))
      (.start false)).any fun p => decide (p.Halted (twoClients .vanishing) 0) := by
    decide +kernel
  obtain ⟨p, hrun, hhalted, -, hcompleted⟩ := served_beside_silent
  obtain ⟨p', hrun', hp'⟩ := (Option.any_eq_true _ _).mp hrun'
  have hhalted' : p'.Halted (twoClients .vanishing) 0 := of_decide_eq_true hp'
  have hisolated := (connection_isolated (twoClients_fs _ _) (twoClients_peers _ _) false false
    _ _ hrun hrun' (by decide +kernel) (by decide +kernel)).2 hhalted hhalted'
  exact ⟨p, p', hrun, hrun', hcompleted, hisolated.2.mp hcompleted, hisolated.1⟩

/-- The other client sends nothing in one run; in the other, its first message is a `REQ_ACK`, and
    the assertion that fails for it ends the process. -/
theorem wrong_type_ends_others : ∃ p p',
    (twoClients (.sending .reqAck)).fs = (twoClients .silent).fs ∧
    (twoClients (.sending .reqAck)).peers 0 = (twoClients .silent).peers 0 ∧
    (serverProcess (twoClients (.sending .reqAck))).run [.accept 0, .accept 1, .step 1]
      (.start false) = some p ∧
    (serverProcess (twoClients .silent)).run (.accept 0 :: .accept 1 :: List.replicate 5 (.step 0))
      (.start false) = some p' ∧
    p.Halted (twoClients (.sending .reqAck)) 0 ∧ p'.Halted (twoClients .silent) 0 ∧
    p.output 0 ≠ p'.output 0 ∧ ¬ p.Completed 0 ∧ p'.Completed 0 := by
  have hrun : ((serverProcess (twoClients (.sending .reqAck))).run
      [.accept 0, .accept 1, .step 1] (.start false)).any fun p =>
        decide (p.Halted (twoClients (.sending .reqAck)) 0 ∧ p.output 0 = [] ∧
          ¬ p.Completed 0) := by
    decide +kernel
  obtain ⟨p, hrun, hp⟩ := (Option.any_eq_true _ _).mp hrun
  obtain ⟨hhalted, hnothing, hnot⟩ := of_decide_eq_true hp
  obtain ⟨p', hrun', hhalted', hsent, hcompleted⟩ := served_beside_silent
  refine ⟨p, p', twoClients_fs _ _, twoClients_peers _ _, hrun, hrun', hhalted, hhalted', ?_,
    hnot, hcompleted⟩
  rw [hnothing]
  exact fun h => hsent h.symm

end NetworkExperiment
