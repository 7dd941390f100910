import NetworkExperiment.Lib.Lockstep
import NetworkExperiment.Server.Isolation

namespace NetworkExperiment

open ActionSystems ByteBuffers DescriptorTables

/-!
# What the files of the server hold

`server_func` reads a file into `msg`, and clears `msg` before it marshalls it.  What a file holds
has then no way out of the server, whatever the clients do:

* `obscured` — a file, a stream, a thread or a connection with zeros for what the file holds;
* `Connection.next_obscured` — a call does the same over zeros;
* `ServerProcess.Alike` — two processes that differ in what their files hold and in nothing else;
* `contents_confined` — whatever one server does another one can do in the same steps, and its
  clients get the same bytes.
-/

/-! ### Files of zeros -/

/-- The file, of the same length and with zeros in it. -/
def FileOutcome.obscured : FileOutcome → FileOutcome
  | .noAccess => .noAccess
  | .noOpen => .noOpen
  | .readable content => .readable (List.replicate content.length 0)

/-- The stream over the file of zeros, at the same place. -/
def Stream.obscured (f : Stream) : Stream := ⟨List.replicate f.rest.length 0, f.eof⟩

/-- A block of zeros is read where a block of the file would be, and the end is where it was. -/
theorem Stream.fread_obscured (f : Stream) :
    f.obscured.fread = (List.replicate f.fread.1.length 0, f.fread.2.obscured) := by
  simp only [fread, obscured, List.take_replicate, List.drop_replicate, List.length_replicate,
    List.length_take, List.length_drop]

namespace ServerThread

variable (s : ServerThread)

/-- The thread over the file of zeros. -/
def obscured : ServerThread := { s with readfile := s.readfile.obscured }

/-- A message is composed of what the thread knows without its file. -/
theorem compose_obscured (t : ProtoType) (pc : ServerPc) :
    s.obscured.compose t pc = (s.compose t pc).obscured := by
  simp only [compose, obscured]

/-- The end of the file is where it was, so the loop is left at the same point. -/
theorem loopHead_obscured : s.obscured.loopHead = s.loopHead.obscured := by
  unfold loopHead exitConnection
  rw [apply_ite obscured, ← compose_obscured]
  rfl

theorem afterReadRequest_obscured (buffer : Buffer) :
    s.obscured.afterReadRequest buffer = (s.afterReadRequest buffer).obscured := by
  unfold afterReadRequest
  dsimp only
  rw [apply_ite obscured, ← compose_obscured]
  simp only [obscured]

theorem afterAccess_obscured (ok : Bool) :
    s.obscured.afterAccess ok = (s.afterAccess ok).obscured := by
  unfold afterAccess exitConnection
  rw [apply_ite obscured, ← compose_obscured]
  simp only [obscured]

theorem afterOpen_obscured (fd : Option Fd) :
    s.obscured.afterOpen fd = (s.afterOpen fd).obscured := by
  cases fd with
  | some fd => simp only [afterOpen, obscured]
  | none => exact s.compose_obscured .fileComplete .sendComplete

theorem afterFdopen_obscured (content : List UInt8) :
    s.obscured.afterFdopen (List.replicate content.length 0) =
      (s.afterFdopen content).obscured :=
  loopHead_obscured { s with readfile := ⟨content, false⟩ }

/-- What is read is written into `msg`, and `msg` is cleared on both ways on from there. -/
theorem afterFread_obscured : s.obscured.afterFread = s.afterFread.obscured := by
  unfold afterFread exitConnection
  rw [show s.obscured.readfile = s.readfile.obscured from rfl, Stream.fread_obscured]
  dsimp only
  rw [List.length_replicate, apply_ite obscured, ← compose_obscured, ← compose_obscured]
  simp only [compose, obscured]

theorem afterReadAck_obscured (buffer : Buffer) :
    s.obscured.afterReadAck buffer = (s.afterReadAck buffer).obscured := by
  unfold afterReadAck
  dsimp only
  rw [apply_ite obscured, ← loopHead_obscured]
  simp only [obscured]

end ServerThread

namespace Connection

variable {c c' : Connection} {fs fs' : FileSystem} {peer : Peer} {fd : Option Fd}

/-- The connection with a thread over a file of zeros. -/
def obscured (c : Connection) : Connection := { c with thread := c.thread.obscured }

/-- What is read comes from the client. -/
theorem readBytes_obscured (c : Connection) (next : ServerThread) :
    c.obscured.readBytes peer next.obscured = (c.readBytes peer next).map obscured := by
  unfold readBytes
  rw [apply_ite (Option.map obscured)]
  rfl

/-- What is sent has been marshalled, and does not change with the file. -/
theorem sendBytes_obscured (c : Connection) (next : ServerThread) :
    c.obscured.sendBytes peer next.obscured = (c.sendBytes peer next).obscured := by
  unfold sendBytes
  cases hsend : peer.send c.sends <;>
    simp only [obscured, hsend, ServerThread.obscured]

/-- The next call is the same over a file of zeros.  The cases are the calls of the thread, each
    with the lemma of what comes behind it. -/
theorem next_obscured (c : Connection) :
    c.obscured.next (fun name => (fs name).obscured) peer fd =
      (c.next fs peer fd).map obscured := by
  by_cases hkilled : c.killed
  · unfold next
    rw [if_pos hkilled, if_pos (show c.obscured.killed from hkilled)]
    rfl
  have hkilled' : ¬ c.obscured.killed := hkilled
  unfold next
  rw [if_neg hkilled, if_neg hkilled']
  dsimp only
  rw [show c.obscured.thread = c.thread.obscured from rfl,
    show c.thread.obscured.pc = c.thread.pc from rfl,
    show c.thread.obscured.filename = c.thread.filename from rfl]
  cases hpc : c.thread.pc with
  | readRequest =>
    dsimp only
    rw [ServerThread.afterReadRequest_obscured]
    exact c.readBytes_obscured _
  | sendAck => exact congrArg some (c.sendBytes_obscured c.thread.afterSendAck)
  | access =>
    -- the file of zeros is there if the file is
    have haccess : (fs c.thread.filename).obscured ≠ .noAccess ↔
        fs c.thread.filename ≠ .noAccess := by
      cases fs c.thread.filename <;> simp [FileOutcome.obscured]
    dsimp only
    rw [decide_eq_decide.mpr haccess, ServerThread.afterAccess_obscured]
    rfl
  | openFile =>
    dsimp only
    cases hfile : fs c.thread.filename with
    | readable content =>
      cases fd with
      | some fd => rfl
      | none =>
        exact congrArg (fun s => some { c with thread := s }) (c.thread.afterOpen_obscured none)
    | noAccess | noOpen =>
      exact congrArg (fun s => some { c with thread := s }) (c.thread.afterOpen_obscured none)
  | fdopen =>
    -- a stream of zeros, of the same length
    dsimp only
    cases hfile : fs c.thread.filename with
    | readable content =>
      dsimp only [FileOutcome.obscured]
      rw [ServerThread.afterFdopen_obscured]
      rfl
    | noAccess | noOpen => rfl
  | fread =>
    dsimp only
    rw [ServerThread.afterFread_obscured]
    rfl
  | sendBlock => exact congrArg some (c.sendBytes_obscured c.thread.afterSendBlock)
  | readAck =>
    dsimp only
    rw [ServerThread.afterReadAck_obscured]
    exact c.readBytes_obscured _
  | sendComplete => exact congrArg some (c.sendBytes_obscured c.thread.afterSendComplete)
  | closeSock => rfl
  | returned | assertFailed => rfl

/-- Connections and files that are the same but for what the files hold make the same call, as both
    are compared with the same one over zeros. -/
theorem next_alike (hc : c.obscured = c'.obscured)
    (hfs : ∀ name, (fs name).obscured = (fs' name).obscured) (peer : Peer) (fd : Option Fd) :
    (c.next fs peer fd).map obscured = (c'.next fs' peer fd).map obscured := by
  rw [← next_obscured, ← next_obscured, hc, funext hfs]

/-- What can be seen of a connection: the call its thread is in front of, what is left of the
    input, what has been sent, and whether it has ended the process. -/
def shown (c : Connection) : ServerPc × List UInt8 × List UInt8 × Bool :=
  (c.thread.pc, c.unread, c.output, c.killed)

@[simp] theorem shown_obscured (c : Connection) : c.obscured.shown = c.shown := rfl

end Connection

/-! ### The process -/

/-- Two settings that differ in what the readable files hold, not in their lengths: the clients,
    the limit and which files there are stay the same. -/
structure ServerSetting.Alike (w w' : ServerSetting) : Prop where
  files : ∀ name, (w.fs name).obscured = (w'.fs name).obscured
  limit : w.limit = w'.limit
  peers : w.peers = w'.peers

namespace ServerProcess

variable {w w' : ServerSetting} {p p' q : ServerProcess} {i : ℕ} {c c' : Connection}

/-- The processes are the same but for what the streams of the threads hold. -/
structure Alike (p p' : ServerProcess) : Prop where
  conns : ∀ i, (p.conns.lookup i).map Connection.obscured =
    (p'.conns.lookup i).map Connection.obscured
  table : p.table = p'.table
  exited : p.exited = p'.exited

theorem Alike.refl (p : ServerProcess) : p.Alike p := ⟨fun _ => rfl, rfl, rfl⟩

/-- The same connections have been accepted. -/
theorem Alike.mem (h : p.Alike p') : i ∈ p.conns ↔ i ∈ p'.conns := by
  rw [← AList.lookup_isSome, ← AList.lookup_isSome, ← Option.isSome_map, h.conns,
    Option.isSome_map]

/-- `accept` and `open` find the same descriptor. -/
theorem Alike.free (h : p.Alike p') (limit : ℕ) : p.free limit = p'.free limit := by
  unfold ServerProcess.free
  rw [h.table]

/-- A connection has its like. -/
theorem Alike.lookup (h : p.Alike p') (hc : p.conns.lookup i = some c) :
    ∃ c', p'.conns.lookup i = some c' ∧ c.obscured = c'.obscured := by
  have hlike := h.conns i
  rw [hc, Option.map_some] at hlike
  obtain ⟨c', hc', hobscured⟩ := Option.map_eq_some_iff.mp hlike.symm
  exact ⟨c', hc', hobscured.symm⟩

/-- Like connections for one client. -/
theorem Alike.insert (h : p.Alike p') (hc : c.obscured = c'.obscured) {table : Table ServerFile}
    {exited : Bool} :
    Alike ⟨p.conns.insert i c, table, exited⟩ ⟨p'.conns.insert i c', table, exited⟩ := by
  refine ⟨fun j => ?_, rfl, rfl⟩
  by_cases hj : j = i
  · subst hj
    rw [AList.lookup_insert, AList.lookup_insert, Option.map_some, Option.map_some, hc]
  · rw [AList.lookup_insert_ne hj, AList.lookup_insert_ne hj, h.conns]

/-- A connection is accepted by both, with the same descriptor, or by neither. -/
theorem Alike.acceptConnection (h : p.Alike p') (hw : w.Alike w') :
    (p.acceptConnection w i).Alike (p'.acceptConnection w' i) := by
  unfold ServerProcess.acceptConnection
  rw [h.free, hw.limit, hw.peers]
  split
  · exact ⟨h.conns, h.table, rfl⟩
  · cases p'.free w'.limit with
    | some fd =>
      dsimp only
      rw [h.table, h.exited]
      exact h.insert rfl
    | none => exact ⟨h.conns, h.table, rfl⟩

/-- The next call of like connections does the same to the descriptors. -/
theorem Alike.tableAfter (h : p.Alike p') (hw : w.Alike w') (hc : c.obscured = c'.obscured) :
    p.tableAfter w i c = p'.tableAfter w' i c' := by
  have hpc : c.thread.pc = c'.thread.pc := congrArg (fun c => c.thread.pc) hc
  have hname : c.thread.filename = c'.thread.filename := congrArg (fun c => c.thread.filename) hc
  have hsockfd : c.thread.sockfd = c'.thread.sockfd := congrArg (fun c => c.thread.sockfd) hc
  have hfile := hw.files c'.thread.filename
  unfold ServerProcess.tableAfter
  rw [h.free, hw.limit, h.table, hpc, hname, hsockfd]
  cases c'.thread.pc with
  | openFile =>
    -- what matters is whether the file can be read
    cases hleft : w.fs c'.thread.filename with
    | readable content =>
      cases hright : w'.fs c'.thread.filename with
      | readable content' => cases p'.free w'.limit <;> rfl
      | noAccess | noOpen =>
        rw [hleft, hright] at hfile
        exact absurd hfile (by simp [FileOutcome.obscured])
    | noAccess | noOpen =>
      cases hright : w'.fs c'.thread.filename with
      | readable content' =>
        rw [hleft, hright] at hfile
        exact absurd hfile (by simp [FileOutcome.obscured])
      | noAccess | noOpen => rfl
  | _ => rfl

/-- One process can do what the other one does, and they stay alike. -/
theorem follows_alike (hw : w.Alike w') :
    (serverProcess w).Follows (serverProcess w') Alike := by
  intro p p' a q h hact
  obtain ⟨hrunning, ⟨i, rfl, hnew, rfl⟩ | ⟨i, c, rfl, hc, hstep⟩⟩ := serverProcess_cases hact
  · -- `accept`
    have hrunning' : ¬ p'.exited := by rw [← h.exited, hrunning]; simp
    refine ⟨p'.acceptConnection w' i, ?_, h.acceptConnection hw⟩
    unfold serverProcess
    dsimp only
    rw [if_neg hrunning', if_neg (fun hmem => hnew (h.mem.mpr hmem))]
  · -- a call of the thread of connection `i`
    have hrunning' : ¬ p'.exited := by rw [← h.exited, hrunning]; simp
    obtain ⟨c', hc', hlike⟩ := h.lookup hc
    obtain ⟨d, hnext, rfl⟩ := Option.map_eq_some_iff.mp hstep
    have hnext' := Connection.next_alike hlike hw.files (w.peers i) (p.free w.limit)
    rw [hnext, Option.map_some] at hnext'
    obtain ⟨d', hd', hlike'⟩ := Option.map_eq_some_iff.mp hnext'.symm
    have hfatal : (decide d.Fatal) = decide d'.Fatal :=
      congrArg (fun c => decide c.Fatal) hlike'.symm
    refine ⟨⟨p'.conns.insert i d', p'.tableAfter w' i c', d'.Fatal⟩, ?_, ?_⟩
    · unfold serverProcess
      dsimp only
      rw [if_neg hrunning', hc']
      dsimp only
      unfold stepConnection
      rw [← hw.peers, ← hw.limit, ← h.free, hd']
      rfl
    · rw [h.tableAfter hw hlike, hfatal]
      exact h.insert hlike'.symm

end ServerProcess

open ServerProcess

/-- **Confinement.**  Two servers with the same clients, whose files differ in what they hold and
    not in their lengths.  Whatever the clients send, whenever they go and in whatever order the
    threads run, what one server does the other one does in the same steps: it sends the same bytes
    to each client, it has the same descriptors open, and it ends where the other one ends. -/
theorem contents_confined {w w' : ServerSetting} (hw : w.Alike w') {withLogFile : Bool}
    {as : List ServerAction} {p : ServerProcess}
    (hrun : (serverProcess w).run as (.start withLogFile) = some p) :
    ∃ p', (serverProcess w').run as (.start withLogFile) = some p' ∧ p'.table = p.table ∧
      p'.exited = p.exited ∧
      ∀ i, (p'.conns.lookup i).map Connection.shown = (p.conns.lookup i).map Connection.shown := by
  obtain ⟨p', hrun', h⟩ := (follows_alike hw).run (Alike.refl _) hrun
  refine ⟨p', hrun', h.table.symm, h.exited.symm, fun i => ?_⟩
  have hlike := congrArg (Option.map Connection.shown) (h.conns i)
  rw [Option.map_map, Option.map_map] at hlike
  exact hlike.symm

/-- One client, which asks for a file with the given content. -/
def oneFile (content : List UInt8) : ServerSetting where
  fs := fun _ => .readable content
  limit := 1024
  peers := fun _ => .sending .reqFile

/-- A client is sent `REQ_ACK` and a block, which are the same for a file of ones and for a file of
    twos. -/
theorem contents_confined_one_block : ∃ p p',
    (serverProcess (oneFile [1, 1])).run (.accept 0 :: List.replicate 7 (.step 0)) (.start true) =
      some p ∧
    (serverProcess (oneFile [2, 2])).run (.accept 0 :: List.replicate 7 (.step 0)) (.start true) =
      some p' ∧
    ((p.conns.lookup 0).map fun c => c.output.length) = some (2 * sizeofProtoMsg) ∧
    (p'.conns.lookup 0).map Connection.shown = (p.conns.lookup 0).map Connection.shown := by
  have hrun : ((serverProcess (oneFile [1, 1])).run (.accept 0 :: List.replicate 7 (.step 0))
      (.start true)).any fun p =>
        decide (((p.conns.lookup 0).map fun c => c.output.length) =
          some (2 * sizeofProtoMsg)) := by
    decide +kernel
  obtain ⟨p, hrun, hp⟩ := (Option.any_eq_true _ _).mp hrun
  obtain ⟨p', hrun', -, -, hshown⟩ := @contents_confined (oneFile [1, 1]) (oneFile [2, 2])
    ⟨fun _ => rfl, rfl, rfl⟩ true _ p hrun
  exact ⟨p, p', hrun, hrun', of_decide_eq_true hp, hshown 0⟩

end NetworkExperiment
