import NetworkExperiment.Server.Process

namespace NetworkExperiment

open ActionSystems ByteBuffers DescriptorTables

/-!
# The descriptors of the server

Which descriptors the server holds, over runs of any length:

* `Connection.held` — what has been opened for a connection and not closed again: its socket until
  its thread returns, and its file from `open` on;
* `ServerProcess.Inv` — the open files are those of the start and what the connections hold;
* `ServerProcess.Conserves` — what it is to conserve descriptors;
* `descriptors_conserved_iff` — a run has conserved them if and only if no thread was in front of
  the `close` of its socket with its file open: `exit_connection` closes the socket only.
-/

/-! ### What a connection holds -/

/-- The thread has not passed `open`. -/
def ServerPc.BeforeOpen : ServerPc → Bool
  | .readRequest | .sendAck | .access | .openFile => true
  | _ => false

namespace Connection

variable {c c' : Connection} {fs : FileSystem} {peer : Peer} {fd : Option Fd}

/-- The files opened for a connection and not closed: its socket until the thread has returned, and
    the file of its request for good. -/
def held (i : ℕ) (c : Connection) : List ServerFile :=
  (if c.thread.pc = .returned then [] else [.connection i]) ++
    if c.opened then [.readfile i] else []

/-- A call that neither opens the file nor closes the socket. -/
structure Keeps (c c' : Connection) : Prop where
  running : c.thread.pc ≠ .returned
  running' : c'.thread.pc ≠ .returned
  sockfd : c'.thread.sockfd = c.thread.sockfd
  opened : c'.opened = c.opened
  beforeOpen : c'.thread.pc.BeforeOpen = true → c.thread.pc.BeforeOpen = true

/-- A call that gives the thread `next`. -/
theorem Keeps.of_thread {next : ServerThread} (hrunning : c.thread.pc ≠ .returned)
    (hsockfd : next.sockfd = c.thread.sockfd) (hnext : next.pc ≠ .returned)
    (hopen : next.pc.BeforeOpen = true → c.thread.pc.BeforeOpen = true)
    (hthread : c'.thread = next) (hopened : c'.opened = c.opened) : c.Keeps c' where
  running := hrunning
  running' := by rwa [hthread]
  sockfd := by rw [hthread, hsockfd]
  opened := hopened
  beforeOpen := by rwa [hthread]

theorem keeps_readBytes {next : ServerThread} (hrunning : c.thread.pc ≠ .returned)
    (hsockfd : next.sockfd = c.thread.sockfd) (hnext : next.pc ≠ .returned)
    (hopen : next.pc.BeforeOpen = true → c.thread.pc.BeforeOpen = true)
    (h : c.readBytes peer next = some c') : c.Keeps c' := by
  unfold readBytes at h
  split_ifs at h
  obtain rfl := Option.some.inj h
  exact .of_thread hrunning hsockfd hnext hopen rfl rfl

theorem keeps_sendBytes {next : ServerThread} (hrunning : c.thread.pc ≠ .returned)
    (hsockfd : next.sockfd = c.thread.sockfd) (hnext : next.pc ≠ .returned)
    (hopen : next.pc.BeforeOpen = true → c.thread.pc.BeforeOpen = true) :
    c.Keeps (c.sendBytes peer next) := by
  unfold sendBytes
  dsimp only
  split
  · exact .of_thread hrunning hsockfd hnext hopen rfl rfl
  · exact .of_thread hrunning hsockfd hnext hopen rfl rfl
  · exact .of_thread hrunning rfl hrunning id rfl rfl

/-- What a call can do: open the file, close the socket, or neither. -/
theorem next_cases (h : c.next fs peer fd = some c') :
    (c.thread.pc = .openFile ∧ ∃ content a, fs c.thread.filename = .readable content ∧
        fd = some a ∧ c' = { c with thread := c.thread.afterOpen (some a), opened := true }) ∨
      (c.thread.pc = .closeSock ∧ c' = { c with thread := c.thread.afterClose }) ∨
      (c.thread.pc ≠ .closeSock ∧ c.Keeps c' ∧
        (c.thread.pc = .openFile →
          fd = none ∨ ∀ content, fs c.thread.filename ≠ .readable content)) := by
  -- one case for each call: most of them only move the thread on
  unfold next at h
  split_ifs at h
  dsimp only at h
  split at h
  case h_1 hpc =>
    refine .inr (.inr ⟨by simp [hpc], ?_, by simp [hpc]⟩)
    apply keeps_readBytes (by simp [hpc]) (by simp) _ (by simp [hpc, ServerPc.BeforeOpen]) h
    unfold ServerThread.afterReadRequest
    dsimp only
    split <;> simp
  case h_2 hpc =>
    obtain rfl := Option.some.inj h
    refine .inr (.inr ⟨by simp [hpc], ?_, by simp [hpc]⟩)
    exact keeps_sendBytes (by simp [hpc]) rfl (by simp [ServerThread.afterSendAck])
      (by simp [hpc, ServerPc.BeforeOpen])
  case h_3 hpc =>
    obtain rfl := Option.some.inj h
    refine .inr (.inr ⟨by simp [hpc], ?_, by simp [hpc]⟩)
    refine .of_thread (by simp [hpc]) (by simp) ?_ (by simp [hpc, ServerPc.BeforeOpen]) rfl rfl
    unfold ServerThread.afterAccess
    split <;> simp
  case h_4 hpc =>
    -- if `open` fails, the thread goes to `exit_connection`
    have hfails : c.Keeps { c with thread := c.thread.afterOpen none } :=
      .of_thread (by simp [hpc]) (by simp) (by simp [ServerThread.afterOpen])
        (by simp [ServerThread.afterOpen, ServerPc.BeforeOpen]) rfl rfl
    cases hfile : fs c.thread.filename with
    | readable content =>
      rw [hfile] at h
      cases fd with
      | some a =>
        obtain rfl := Option.some.inj h
        exact .inl ⟨hpc, content, a, rfl, rfl, rfl⟩
      | none =>
        obtain rfl := Option.some.inj h
        exact .inr (.inr ⟨by simp [hpc], hfails, fun _ => .inl rfl⟩)
    | noAccess | noOpen =>
      rw [hfile] at h
      obtain rfl := Option.some.inj h
      exact .inr (.inr ⟨by simp [hpc], hfails, fun _ => .inr (by simp)⟩)
  case h_5 hpc =>
    split at h
    case h_1 content hfile =>
      obtain rfl := Option.some.inj h
      refine .inr (.inr ⟨by simp [hpc], ?_, by simp [hpc]⟩)
      have hnext : ((c.thread.afterFdopen content).pc = .fread ∨
          (c.thread.afterFdopen content).pc = .sendComplete) := by
        unfold ServerThread.afterFdopen ServerThread.loopHead
        split <;> simp
      refine .of_thread (by simp [hpc]) (c.thread.afterFdopen_sockfd content) ?_ ?_ rfl rfl
      · rcases hnext with hnext | hnext <;> simp [hnext]
      · rcases hnext with hnext | hnext <;> simp [hnext, ServerPc.BeforeOpen]
    case h_2 => exact absurd h (by simp)
  case h_6 hpc =>
    obtain rfl := Option.some.inj h
    refine .inr (.inr ⟨by simp [hpc], ?_, by simp [hpc]⟩)
    have hnext : c.thread.afterFread.pc = .sendComplete ∨ c.thread.afterFread.pc = .sendBlock := by
      unfold ServerThread.afterFread
      dsimp only
      split <;> simp
    refine .of_thread (by simp [hpc]) c.thread.afterFread_sockfd ?_ ?_ rfl rfl
    · rcases hnext with hnext | hnext <;> simp [hnext]
    · rcases hnext with hnext | hnext <;> simp [hnext, ServerPc.BeforeOpen]
  case h_7 hpc =>
    obtain rfl := Option.some.inj h
    refine .inr (.inr ⟨by simp [hpc], ?_, by simp [hpc]⟩)
    exact keeps_sendBytes (by simp [hpc]) rfl (by simp [ServerThread.afterSendBlock])
      (by simp [ServerThread.afterSendBlock, ServerPc.BeforeOpen])
  case h_8 hpc =>
    refine .inr (.inr ⟨by simp [hpc], ?_, by simp [hpc]⟩)
    have hnext : ((c.thread.afterReadAck c.received).pc = .fread ∨
        (c.thread.afterReadAck c.received).pc = .sendComplete ∨
        (c.thread.afterReadAck c.received).pc = .assertFailed) := by
      unfold ServerThread.afterReadAck ServerThread.loopHead
      dsimp only
      split
      · split <;> simp
      · simp
    apply keeps_readBytes (by simp [hpc]) (c.thread.afterReadAck_sockfd c.received) _ _ h
    · rcases hnext with hnext | hnext | hnext <;> simp [hnext]
    · rcases hnext with hnext | hnext | hnext <;> simp [hnext, ServerPc.BeforeOpen]
  case h_9 hpc =>
    obtain rfl := Option.some.inj h
    refine .inr (.inr ⟨by simp [hpc], ?_, by simp [hpc]⟩)
    exact keeps_sendBytes (by simp [hpc]) rfl (by simp [ServerThread.afterSendComplete])
      (by simp [ServerThread.afterSendComplete, ServerPc.BeforeOpen])
  case h_10 hpc =>
    obtain rfl := Option.some.inj h
    exact .inr (.inl ⟨hpc, rfl⟩)
  case h_11 | h_12 => exact absurd h (by simp)

end Connection

/-! ### The open files -/

/-- An entry of an association list can be brought to its front. -/
theorem entries_perm {l : AList fun _ : ℕ => Connection} {i : ℕ} {c : Connection}
    (h : l.lookup i = some c) :
    l.entries.Perm (⟨i, c⟩ :: List.kerase i l.entries) := by
  have hi : i ∈ l.entries.keys := AList.lookup_isSome.mp (Option.isSome_of_eq_some h)
  obtain ⟨c', l₁, l₂, hnot, hsplit, herase⟩ := List.exists_of_kerase hi
  have hlookup : l.lookup i = some c' := by
    apply List.mem_dlookup l.nodupKeys
    rw [hsplit]
    exact List.mem_append_right _ List.mem_cons_self
  obtain rfl : c = c' := Option.some.inj (h.symm.trans hlookup)
  rw [herase, hsplit]
  exact List.perm_middle

namespace ServerProcess

/-- The files opened for the connections and not closed. -/
def held (p : ServerProcess) : List ServerFile := p.conns.entries.flatMap fun e => e.2.held e.1

/-- The threads that have not returned. -/
def running (p : ServerProcess) : ℕ := p.conns.entries.countP fun e => e.2.thread.pc ≠ .returned

/-- A descriptor was opened for the connection. -/
def OpenFor (p : ServerProcess) (i : ℕ) (fd : Fd) : Prop :=
  p.table.file fd = some (.connection i) ∨ p.table.file fd = some (.readfile i)

/-- The descriptors open as `server_run` is called: the streams and the listening socket. -/
def openAtStart (withLogFile : Bool) : ℕ := (start withLogFile).table.openFiles.length

/-- The server conserves descriptors. -/
structure Conserves (withLogFile : Bool) (p : ServerProcess) : Prop where
  /-- A thread that has returned has left none open. -/
  closed : ∀ i, p.Returned i → ∀ fd, ¬ p.OpenFor i fd
  /-- There are no more than two for each thread that has not. -/
  bounded : p.table.openFiles.length ≤ openAtStart withLogFile + 2 * p.running
  /-- `accept` and `open` are refused only when these threads need as many as there are. -/
  refused : ∀ limit, p.table.Full limit → limit ≤ openAtStart withLogFile + 2 * p.running

/-- **The invariant.** -/
structure Inv (withLogFile : Bool) (p : ServerProcess) : Prop where
  files : p.table.openFiles.Perm ((start withLogFile).table.openFiles ++ p.held)
  socket : ∀ i c, p.conns.lookup i = some c → c.thread.pc ≠ .returned →
    p.table.file c.thread.sockfd = some (.connection i)
  beforeOpen : ∀ i c, p.conns.lookup i = some c → c.thread.pc.BeforeOpen = true → c.opened = false

variable {p p' : ServerProcess} {w : ServerSetting} {withLogFile : Bool} {i : ℕ} {c c' : Connection}

/-- What the other connections hold: a call of one of them changes nothing of it. -/
def heldByOthers (p : ServerProcess) (i : ℕ) : List ServerFile :=
  (List.kerase i p.conns.entries).flatMap fun e => e.2.held e.1

theorem held_perm (h : p.conns.lookup i = some c) :
    p.held.Perm (c.held i ++ p.heldByOthers i) :=
  (entries_perm h).flatMap_right _

/-- A connection changes, or is a new one: of what is held, only its part is another. -/
theorem held_insert (hconns : p'.conns = p.conns.insert i c') :
    p'.held = c'.held i ++ p.heldByOthers i := by
  unfold held heldByOthers
  rw [hconns, AList.entries_insert]
  rfl

theorem heldByOthers_of_notMem (h : i ∉ p.conns) : p.heldByOthers i = p.held := by
  unfold heldByOthers held
  rw [List.kerase_of_notMem_keys h]

/-- The descriptor of a connection is not a free one. -/
theorem ne_lowest {x : ServerFile} {fd : Fd} (h : p.table.file fd = some x) :
    fd ≠ p.table.lowest := by
  rintro rfl
  rw [file_lowest] at h
  exact absurd h (by simp)

/-- The connections after a call: the one that made it, and the others as they were. -/
theorem lookup_insert_cases {j : ℕ} {d : Connection}
    (hd : (p.conns.insert i c').lookup j = some d) :
    (j = i ∧ d = c') ∨ (j ≠ i ∧ p.conns.lookup j = some d) := by
  by_cases hj : j = i
  · subst hj
    exact .inl ⟨rfl, Option.some.inj (hd.symm.trans (AList.lookup_insert _))⟩
  · exact .inr ⟨hj, (AList.lookup_insert_ne hj).symm.trans hd⟩

/-- `accept`: the descriptor that it takes is held for the new connection. -/
theorem Inv.accept (h : p.Inv withLogFile) (hnew : i ∉ p.conns) :
    (p.acceptConnection w i).Inv withLogFile := by
  unfold acceptConnection
  by_cases haborts : (w.peers i).aborts = true
  · rw [if_pos haborts]
    exact ⟨h.files, h.socket, h.beforeOpen⟩
  rw [if_neg haborts]
  unfold free
  by_cases hfull : p.table.Full w.limit
  · rw [if_pos hfull]
    exact ⟨h.files, h.socket, h.beforeOpen⟩
  rw [if_neg hfull]
  refine ⟨?_, ?_, ?_⟩
  · rw [held_insert rfl, heldByOthers_of_notMem hnew]
    exact (openFiles_insert.trans (h.files.cons _)).trans List.perm_middle.symm
  · intro j d hd hrunning
    rcases lookup_insert_cases hd with ⟨rfl, rfl⟩ | ⟨-, hd⟩
    · -- the new connection has the descriptor that was free
      exact file_insert_self
    · have hfile := h.socket j d hd hrunning
      exact (file_insert_of_ne (ne_lowest hfile)).trans hfile
  · intro j d hd hbefore
    rcases lookup_insert_cases hd with ⟨rfl, rfl⟩ | ⟨-, hd⟩
    · rfl
    · exact h.beforeOpen j d hd hbefore

/-- `open` returns a descriptor: the file is held for the connection, beside its socket. -/
theorem Inv.openFile (h : p.Inv withLogFile) (hc : p.conns.lookup i = some c)
    (hpc : c.thread.pc = .openFile) (hconns : p'.conns = p.conns.insert i
      { c with thread := c.thread.afterOpen (some p.table.lowest), opened := true })
    (htable : p'.table = p.table.insert (.readfile i)) : p'.Inv withLogFile := by
  have hopened := h.beforeOpen i c hc (by rw [hpc]; rfl)
  refine ⟨?_, ?_, ?_⟩
  · have hheld : c.held i = [.connection i] := by simp [Connection.held, hpc, hopened]
    have hfiles := h.files.trans ((held_perm hc).append_left _)
    rw [hheld] at hfiles
    rw [held_insert hconns, htable]
    refine (openFiles_insert.trans (hfiles.cons _)).trans ?_
    -- the file comes behind the socket
    have hmiddle : ((start withLogFile).table.openFiles ++ [ServerFile.connection i] ++
        ServerFile.readfile i :: p.heldByOthers i).Perm (ServerFile.readfile i ::
        ((start withLogFile).table.openFiles ++ [ServerFile.connection i] ++ p.heldByOthers i)) :=
      List.perm_middle
    simpa [Connection.held, ServerThread.afterOpen] using hmiddle.symm
  · intro j d hd hrunning
    rw [hconns] at hd
    rw [htable]
    have hfile : p.table.file d.thread.sockfd = some (.connection j) := by
      rcases lookup_insert_cases hd with ⟨rfl, rfl⟩ | ⟨-, hd⟩
      · exact h.socket j c hc (by simp [hpc])
      · exact h.socket j d hd hrunning
    rw [file_insert_of_ne (ne_lowest hfile), hfile]
  · intro j d hd hbefore
    rw [hconns] at hd
    rcases lookup_insert_cases hd with ⟨rfl, rfl⟩ | ⟨-, hd⟩
    · exact absurd hbefore (by simp [ServerThread.afterOpen, ServerPc.BeforeOpen])
    · exact h.beforeOpen j d hd hbefore

/-- `close(sockfd)`: the thread has returned then, and does not hold its socket any more. -/
theorem Inv.closeSock (h : p.Inv withLogFile) (hc : p.conns.lookup i = some c)
    (hpc : c.thread.pc = .closeSock)
    (hconns : p'.conns = p.conns.insert i { c with thread := c.thread.afterClose })
    (htable : p'.table = p.table.close c.thread.sockfd) : p'.Inv withLogFile := by
  have hsock := h.socket i c hc (by simp [hpc])
  refine ⟨?_, ?_, ?_⟩
  · have hheld : c.held i
        = .connection i :: Connection.held i { c with thread := c.thread.afterClose } := by
      simp [Connection.held, hpc, ServerThread.afterClose]
    have hfiles := (h.files.trans ((held_perm hc).append_left _))
    rw [hheld] at hfiles
    rw [held_insert hconns, htable]
    -- what was open is the socket and what is left
    exact (((openFiles_close hsock).symm.trans hfiles).trans List.perm_middle).cons_inv
  · intro j d hd hrunning
    rw [hconns] at hd
    rw [htable]
    rcases lookup_insert_cases hd with ⟨rfl, rfl⟩ | ⟨hj, hd⟩
    · exact absurd rfl hrunning
    · have hfile := h.socket j d hd hrunning
      -- the sockets of two connections are different files
      have hne : d.thread.sockfd ≠ c.thread.sockfd := by
        intro heq
        rw [heq, hsock] at hfile
        exact hj (ServerFile.connection.inj (Option.some.inj hfile)).symm
      rw [file_close_of_ne hne, hfile]
  · intro j d hd hbefore
    rw [hconns] at hd
    rcases lookup_insert_cases hd with ⟨rfl, rfl⟩ | ⟨-, hd⟩
    · exact absurd hbefore (by simp [ServerThread.afterClose, ServerPc.BeforeOpen])
    · exact h.beforeOpen j d hd hbefore

/-- Any other call: neither the descriptors nor what is held changes. -/
theorem Inv.keeps (h : p.Inv withLogFile) (hc : p.conns.lookup i = some c) (hkeeps : c.Keeps c')
    (hconns : p'.conns = p.conns.insert i c') (htable : p'.table = p.table) :
    p'.Inv withLogFile := by
  refine ⟨?_, ?_, ?_⟩
  · have hheld : c'.held i = c.held i := by
      simp [Connection.held, hkeeps.running, hkeeps.running', hkeeps.opened]
    rw [held_insert hconns, htable, hheld]
    exact h.files.trans ((held_perm hc).append_left _)
  · intro j d hd hrunning
    rw [hconns] at hd
    rw [htable]
    rcases lookup_insert_cases hd with ⟨rfl, rfl⟩ | ⟨-, hd⟩
    · rw [hkeeps.sockfd]
      exact h.socket j c hc hkeeps.running
    · exact h.socket j d hd hrunning
  · intro j d hd hbefore
    rw [hconns] at hd
    rcases lookup_insert_cases hd with ⟨rfl, rfl⟩ | ⟨-, hd⟩
    · rw [hkeeps.opened]
      exact h.beforeOpen j c hc (hkeeps.beforeOpen hbefore)
    · exact h.beforeOpen j d hd hbefore

/-- The next call of a thread. -/
theorem Inv.step (h : p.Inv withLogFile) (hc : p.conns.lookup i = some c)
    (hstep : p.stepConnection w i c = some p') : p'.Inv withLogFile := by
  obtain ⟨c', hnext, rfl⟩ := Option.map_eq_some_iff.mp hstep
  rcases Connection.next_cases hnext with ⟨hpc, content, a, hfile, hfree, rfl⟩ | ⟨hpc, rfl⟩ |
    ⟨hpc, hkeeps, hrefused⟩
  · have hlowest : a = p.table.lowest := by
      unfold free at hfree
      split_ifs at hfree
      exact (Option.some.inj hfree).symm
    subst hlowest
    apply h.openFile hc hpc rfl
    simp [tableAfter, hpc, hfile, hfree]
  · apply h.closeSock hc hpc rfl
    simp [tableAfter, hpc]
  · apply h.keeps hc hkeeps rfl
    unfold tableAfter
    dsimp only
    by_cases hopen : c.thread.pc = .openFile
    · rw [hopen]
      rcases hrefused hopen with hfree | hfile
      · simp [hfree]
      · dsimp only
        split
        · exact absurd ‹_› (hfile _)
        · rfl
    · split <;> simp_all

theorem inv_start (withLogFile : Bool) : (start withLogFile).Inv withLogFile where
  files := by
    have hheld : (start withLogFile).held = [] := rfl
    rw [hheld, List.append_nil]
  socket := by
    intro i c hc
    exact absurd hc (by simp [start])
  beforeOpen := by
    intro i c hc
    exact absurd hc (by simp [start])

/-- **The invariant of every run.** -/
theorem inv_of_run {as : List ServerAction} (h : p.Inv withLogFile)
    (hrun : (serverProcess w).run as p = some p') : p'.Inv withLogFile := by
  refine ActionSystem.Invariant.run (I := Inv withLogFile) ?_ h hrun
  intro p a p' h hact
  rcases serverProcess_cases hact with ⟨-, ⟨i, rfl, hnew, rfl⟩ | ⟨i, c, rfl, hc, hstep⟩⟩
  · exact h.accept hnew
  · exact h.step hc hstep

/-! ### Conservation -/

theorem mem_held {x : ServerFile} :
    x ∈ p.held ↔ ∃ i c, p.conns.lookup i = some c ∧ x ∈ c.held i := by
  unfold held
  rw [List.mem_flatMap]
  constructor
  · rintro ⟨⟨i, c⟩, hmem, hx⟩
    exact ⟨i, c, AList.mem_lookup_iff.mpr hmem, hx⟩
  · rintro ⟨i, c, hc, hx⟩
    exact ⟨⟨i, c⟩, AList.mem_lookup_iff.mp hc, hx⟩

/-- Nothing is open for a connection as `server_run` is called. -/
theorem start_files {x : ServerFile} (hx : x ∈ (start withLogFile).table.openFiles) (i : ℕ) :
    x ≠ .connection i ∧ x ≠ .readfile i := by
  have hsub : (start withLogFile).table.openFiles
      ⊆ [.stdin, .stdout, .stderr, .logFile, .serverSock] := by
    cases withLogFile <;> decide
  have hx := hsub hx
  simp only [List.mem_cons, List.not_mem_nil, or_false] at hx
  rcases hx with rfl | rfl | rfl | rfl | rfl <;> simp

/-- Two descriptors for each thread that has not returned, if the others hold none: its socket and
    its file. -/
theorem length_held_le {l : List (Sigma fun _ : ℕ => Connection)}
    (h : ∀ e ∈ l, e.2.thread.pc = .returned → e.2.opened = false) :
    (l.flatMap fun e => e.2.held e.1).length
      ≤ 2 * l.countP fun e => e.2.thread.pc ≠ .returned := by
  induction l with
  | nil => exact Nat.zero_le _
  | cons e l ih =>
    have hrest := ih fun e' he' => h e' (List.mem_cons_of_mem _ he')
    rw [List.flatMap_cons, List.length_append, List.countP_cons]
    by_cases hreturned : e.2.thread.pc = .returned
    · have hnone : e.2.held e.1 = [] := by
        simp [Connection.held, hreturned, h e List.mem_cons_self hreturned]
      rw [hnone]
      simp only [hreturned, ne_eq, not_true_eq_false, decide_false, Bool.false_eq_true, if_false]
      simpa using hrest
    · have htwo : (e.2.held e.1).length ≤ 2 := by
        unfold Connection.held
        split <;> split <;> simp
      simp only [hreturned, ne_eq, not_false_eq_true, decide_true, if_true]
      simp only [ne_eq] at hrest
      omega

/-- No thread that has returned has opened its file. -/
def Clean (p : ServerProcess) : Prop :=
  ∀ i c, p.conns.lookup i = some c → c.thread.pc = .returned → c.opened = false

/-- Descriptors are conserved if and only if no thread that has returned has opened its file. -/
theorem Inv.conserves_iff (h : p.Inv withLogFile) : p.Conserves withLogFile ↔ p.Clean := by
  constructor
  · intro hconserves i c hc hreturned
    by_contra hopened
    -- the file is still open
    have hheld : ServerFile.readfile i ∈ c.held i := by
      simp [Connection.held, Bool.of_not_eq_false hopened]
    have hopen : ServerFile.readfile i ∈ p.table.openFiles := by
      rw [h.files.mem_iff, List.mem_append]
      exact .inr (mem_held.mpr ⟨i, c, hc, hheld⟩)
    obtain ⟨fd, hfd⟩ := mem_openFiles.mp hopen
    exact hconserves.closed i ⟨c, hc, hreturned⟩ fd (.inr hfd)
  · intro hunopened
    -- no thread that has returned counts
    have hbounded : p.table.openFiles.length ≤ openAtStart withLogFile + 2 * p.running := by
      rw [h.files.length_eq, List.length_append]
      apply Nat.add_le_add_left
      apply length_held_le
      intro e he
      exact hunopened e.1 e.2 (AList.mem_lookup_iff.mpr he)
    refine ⟨?_, hbounded, fun limit hfull => (le_length_of_full hfull).trans hbounded⟩
    rintro i ⟨c, hc, hreturned⟩ fd hfd
    have hnone : c.held i = [] := by
      simp [Connection.held, hreturned, hunopened i c hc hreturned]
    obtain ⟨x, hx, hfile⟩ : ∃ x, (x = .connection i ∨ x = .readfile i) ∧
        p.table.file fd = some x := by
      rcases hfd with hfd | hfd
      · exact ⟨_, .inl rfl, hfd⟩
      · exact ⟨_, .inr rfl, hfd⟩
    have hopen : x ∈ p.table.openFiles := mem_openFiles.mpr ⟨fd, hfile⟩
    rw [h.files.mem_iff, List.mem_append, mem_held] at hopen
    rcases hopen with hstart | ⟨j, d, hd, hheld⟩
    · obtain ⟨hconnection, hreadfile⟩ := start_files hstart i
      exact hx.elim hconnection hreadfile
    · -- it is a file of this connection
      have hj : j = i := by
        unfold Connection.held at hheld
        rcases hx with rfl | rfl <;> grind
      subst hj
      obtain rfl := Option.some.inj (hd.symm.trans hc)
      rw [hnone] at hheld
      exact absurd hheld List.not_mem_nil

/-! ### The calls that leave a file open -/

/-- A thread in front of the `close` of its socket has not opened its file. -/
def OnlySocketOpen (p : ServerProcess) : ServerAction → Prop
  | .accept _ => True
  | .step i => ∀ c ∈ p.conns.lookup i, c.thread.pc = .closeSock → c.opened = false

instance (p : ServerProcess) : (a : ServerAction) → Decidable (p.OnlySocketOpen a)
  | .accept _ => .isTrue trivial
  | .step i => inferInstanceAs (Decidable (∀ c ∈ p.conns.lookup i, _ → _))

/-- A connection whose thread has not returned changes, or is a new one. -/
theorem clean_insert (hconns : p'.conns = p.conns.insert i c')
    (hrunning : ∀ c, p.conns.lookup i = some c → c.thread.pc ≠ .returned) :
    p'.Clean ↔ p.Clean ∧ (c'.thread.pc = .returned → c'.opened = false) := by
  unfold Clean
  rw [hconns]
  constructor
  · intro h
    refine ⟨?_, h i c' (AList.lookup_insert _)⟩
    intro j d hd hreturned
    have hj : j ≠ i := by
      rintro rfl
      exact hrunning d hd hreturned
    exact h j d ((AList.lookup_insert_ne hj).trans hd) hreturned
  · rintro ⟨h, hc'⟩ j d hd hreturned
    rcases lookup_insert_cases hd with ⟨rfl, rfl⟩ | ⟨-, hd⟩
    · exact hc' hreturned
    · exact h j d hd hreturned

/-- What one step leaves open. -/
theorem clean_step {a : ServerAction} (hact : (serverProcess w).act p a = some p') :
    p'.Clean ↔ p.Clean ∧ p.OnlySocketOpen a := by
  rcases serverProcess_cases hact with ⟨-, ⟨i, rfl, hnew, rfl⟩ | ⟨i, c, rfl, hc, hstep⟩⟩
  · have hnone : p.conns.lookup i = none := AList.lookup_eq_none.mpr hnew
    rw [show p.OnlySocketOpen (.accept i) ↔ True from Iff.rfl, and_true]
    unfold acceptConnection
    split
    · exact Iff.rfl
    · split
      · rw [clean_insert rfl (by simp [hnone])]
        simp [Connection.start, ServerThread.start]
      · exact Iff.rfl
  · obtain ⟨c', hnext, rfl⟩ := Option.map_eq_some_iff.mp hstep
    have hcases := Connection.next_cases hnext
    have hrunning : c.thread.pc ≠ .returned := by
      rcases hcases with ⟨hpc, -⟩ | ⟨hpc, -⟩ | ⟨-, hkeeps, -⟩
      · simp [hpc]
      · simp [hpc]
      · exact hkeeps.running
    rw [clean_insert rfl (by simpa [hc] using hrunning)]
    simp only [OnlySocketOpen, hc, Option.mem_some_iff, forall_eq']
    rcases hcases with ⟨hpc, content, a, -, -, rfl⟩ | ⟨hpc, rfl⟩ | ⟨hpc, hkeeps, -⟩
    · simp [hpc, ServerThread.afterOpen]
    · -- the thread returns, with its file as it was
      simp [hpc, ServerThread.afterClose]
    · simp [hpc, hkeeps.running']

/-- What a run leaves open. -/
theorem clean_iff_stepsMeet {as : List ServerAction}
    (hrun : (serverProcess w).run as (.start withLogFile) = some p) :
    p.Clean ↔ (serverProcess w).StepsMeet OnlySocketOpen as (.start withLogFile) := by
  induction as using List.reverseRec generalizing p with
  | nil =>
    obtain rfl := Option.some.inj hrun
    simp [Clean, start, ActionSystem.StepsMeet]
  | append_singleton as a ih =>
    obtain ⟨r, hr, hact⟩ := (serverProcess w).run_concat_eq_some.mp hrun
    rw [clean_step hact, ih hr, ActionSystem.stepsMeet_concat hr]

end ServerProcess

open ServerProcess

/-- **Conservation of descriptors.**  After a run of the server, the threads that have returned
    have left no descriptor open, there are no more than two for each of the others, and only these
    can use up the limit, if and only if in the run no thread with its file open was in front of
    the `close` of its socket. -/
theorem descriptors_conserved_iff (w : ServerSetting) (withLogFile : Bool)
    (as : List ServerAction) {p : ServerProcess}
    (hrun : (serverProcess w).run as (.start withLogFile) = some p) :
    p.Conserves withLogFile ↔
      (serverProcess w).StepsMeet OnlySocketOpen as (.start withLogFile) := by
  rw [← clean_iff_stepsMeet hrun]
  exact (inv_of_run (inv_start withLogFile) hrun).conserves_iff

/-- A client that asks for a file and reads all answers. -/
def oneClient (file : FileOutcome) : ServerSetting where
  fs := fun _ => file
  limit := 1024
  peers := fun _ =>
    { aborts := false
      input := (frame (.blank .reqFile)).toList
      ends := false
      send := fun _ => .sent
      garbage := .zero _ }

/-- The file is missing. -/
theorem descriptors_conserved_missing_file : ∃ p,
    (serverProcess (oneClient .noAccess)).run (.accept 0 :: List.replicate 5 (.step 0))
      (.start false) = some p ∧ p.Returned 0 ∧ p.Conserves false := by
  have hrun : ((serverProcess (oneClient .noAccess)).run
      (.accept 0 :: List.replicate 5 (.step 0)) (.start false)).any fun p =>
        (p.conns.lookup 0).any fun c => c.thread.pc = .returned := by
    decide +kernel
  obtain ⟨p, hrun, hp⟩ := (Option.any_eq_true _ _).mp hrun
  obtain ⟨c, hc, hreturned⟩ := (Option.any_eq_true _ _).mp hp
  refine ⟨p, hrun, ⟨c, hc, of_decide_eq_true hreturned⟩, ?_⟩
  rw [descriptors_conserved_iff (oneClient .noAccess) false _ hrun]
  decide +kernel

/-- The file is there, and empty: when the thread has returned, its descriptor is still open. -/
theorem readfile_left_open : ∃ p,
    (serverProcess (oneClient (.readable []))).run (.accept 0 :: List.replicate 8 (.step 0))
      (.start false) = some p ∧
    p.Returned 0 ∧ p.OpenFor 0 5 ∧ ¬ p.Conserves false := by
  have hrun : ((serverProcess (oneClient (.readable []))).run
      (.accept 0 :: List.replicate 8 (.step 0)) (.start false)).any fun p =>
        decide (p.table.file 5 = some (.readfile 0)) &&
          (p.conns.lookup 0).any fun c => c.thread.pc = .returned := by
    decide +kernel
  obtain ⟨p, hrun, hp⟩ := (Option.any_eq_true _ _).mp hrun
  obtain ⟨hfile, hp⟩ := Bool.and_eq_true_iff.mp hp
  obtain ⟨c, hc, hreturned⟩ := (Option.any_eq_true _ _).mp hp
  have hopen : p.OpenFor 0 5 := .inr (of_decide_eq_true hfile)
  have hreturned : p.Returned 0 := ⟨c, hc, of_decide_eq_true hreturned⟩
  exact ⟨p, hrun, hreturned, hopen, fun hconserves => hconserves.closed 0 hreturned 5 hopen⟩

end NetworkExperiment
