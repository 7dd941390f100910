import NetworkExperiment.Lib.ActionSystem
import NetworkExperiment.Lib.Descriptors
import NetworkExperiment.Client.SendRequest

namespace NetworkExperiment

open ActionSystems ByteBuffers DescriptorTables

/-!
# The client process — `client_run` beside `flooder_checks`

The two threads of the client in one process, with its table of descriptors and its timing log:

* `MainThread` / `Listener` — where the two threads are;
* `ClientProcess` — the threads, the global variables, the descriptors and the log;
* `ClientProcess.mainStep` — one call of `client_run`, `client_connect` or `client_send_request`;
* `ClientProcess.listenerStep` — one call of `flooder_checks`;
* `clientProcess` — every interleaving of the two, each call one step.

What the calls return is part of the action.  `heard` is a record for the statements: the markers
due for the messages that the listener has read.
-/

/-! ### Data -/

/-- What an open descriptor of the client refers to. -/
inductive ClientFile
  | stdin
  | stdout
  | stderr
  | logFile
  | flooderSock
  | flooderFh
  | socketfh
  | timingLog
deriving DecidableEq, Repr

/-- What `flooder_checks` writes: `"FLOODER_START\n"`, `"FLOODER_END\n"` or
    `"FLOODER_CONTROL\n"`. -/
inductive FlooderMarker
  | flooderStart
  | flooderEnd
  | flooderControl
deriving DecidableEq, Repr

/-- A line of the timing log. -/
inductive LogLine
  /-- `"START: %ld\n"`, with the time in nanoseconds. -/
  | requestStart (nsec : ℤ)
  /-- `"END: %ld\n"`, with the time in nanoseconds. -/
  | requestEnd (nsec : ℤ)
  | flooder (marker : FlooderMarker)
deriving DecidableEq, Repr

/-- The call that the main thread is in front of; `loopTest` is the test of the loop of
    `client_run`, and `returned` says that `client_run` has returned. -/
inductive MainThread
  | loopTest
  | socket
  | connect (socketfh : Fd)
  | openLog (socketfh : Fd)
  | request (socketfh : Fd) (thread : ClientThread)
  | returned (ret : ℤ)
deriving DecidableEq

/-- The call that `flooder_checks` is in front of; `setState` is its critical section. -/
inductive Listener
  | read
  | write (marker : FlooderMarker)
  | setState
deriving DecidableEq, Repr

/-- The client process. -/
structure ClientProcess where
  main : MainThread
  listener : Listener
  requestCounter : Int32
  flooderState : Bool
  /-- `none` is `-1`. -/
  timingLogfh : Option Fd
  table : Table ClientFile
  log : List LogLine
  heard : List FlooderMarker
  exited : Bool
deriving DecidableEq

/-- What a call of the main thread returns. -/
inductive CallResult
  /-- The call returns, and the code makes no more of it. -/
  | done
  /-- It returns `-1`. -/
  | failed
  /-- `open` succeeds; `garbage` is what `malloc` leaves in the buffer of the request. -/
  | opened (garbage : Buffer)
  /-- `cmpsc311_read_bytes` returns `0` or `-1`, and leaves this in the buffer. -/
  | filled (buffer : Buffer)
  /-- The reading of the clock in front of a write to the timing log. -/
  | clock (nsec : ℤ)
  /-- The call raises `SIGPIPE`. -/
  | killed
deriving DecidableEq

/-- A step of the process. -/
inductive ClientAction
  | main (r : CallResult)
  /-- The listener reads a message; `none` is a read that returns `-1`. -/
  | hear (msg : Option (Bytes 6))
  | write
  | setState
deriving DecidableEq

/-! ### The timing log -/

/-- `strncmp(a, b, n) == 0`: the strings agree up to their first `NUL` within `n` bytes. -/
def strncmpZero (a b : List UInt8) (n : ℕ) : Bool :=
  (a.take n).takeWhile (· ≠ 0) = (b.take n).takeWhile (· ≠ 0)

/-- The bytes of a string literal. -/
def ascii (s : String) : List UInt8 := s.toList.map fun c => UInt8.ofNat c.toNat

/-- What `flooder_checks` writes for a message. -/
def flooderMarker (msg : Bytes 6) : Option FlooderMarker :=
  if strncmpZero msg.toList (ascii "START") 6 then some .flooderStart
  else if strncmpZero msg.toList (ascii "ENDIN") 6 then some .flooderEnd
  else if strncmpZero msg.toList (ascii "CONTRO") 6 then some .flooderControl
  else none

namespace ClientProcess

/-- What `timing_logfh` refers to: the number stays in it when its file is closed, and another file
    may get the number. -/
def timingFile (p : ClientProcess) : Option ClientFile := p.timingLogfh.bind p.table.file

/-- `write(timing_logfh, …)`: the line reaches the log if the descriptor refers to it. -/
def writeLog (p : ClientProcess) (line : LogLine) : ClientProcess :=
  if p.timingFile = some .timingLog then { p with log := p.log ++ [line] } else p

/-- `close(timing_logfh)`, which leaves the number in the variable. -/
def closeLog (p : ClientProcess) : ClientProcess :=
  match p.timingLogfh with
  | some fd => { p with table := p.table.close fd }
  | none => p

/-! ### The main thread -/

/-- The critical section of `update_request_counter`: a message is counted up before the control
    sequence, and down in it.  The counter is an `int` that wraps. -/
def updateRequestCounter (p : ClientProcess) : ClientProcess :=
  if !p.flooderState then { p with requestCounter := p.requestCounter + 1 }
  else { p with requestCounter := p.requestCounter - 1 }

/-- The main thread goes on in `client_send_request`, unless an assertion has failed, which ends the
    process, or the function has returned. -/
def goOn (p : ClientProcess) (sock : Fd) (thread : ClientThread) : ClientProcess :=
  match thread.pc with
  | .assertFailed => { p with main := .request sock thread, exited := true }
  -- `client_run` does not look at what the function returns
  | .illegalType | .returned => { p with main := .loopTest }
  | _ => { p with main := .request sock thread }

/-- A call of `client_send_request`, with what it returns.  The two readings of the clock are
    written to the timing log at once. -/
def requestStep (p : ClientProcess) (sock : Fd) (thread : ClientThread) (r : CallResult) :
    Option ClientProcess :=
  match thread.pc, r with
  | .sendRequest, .done => some (p.goOn sock thread.afterSendRequest)
  | .readAck, .filled buffer => some (p.goOn sock (thread.afterReadAck buffer))
  | .logStart, .clock nsec =>
    some ((p.writeLog (.requestStart nsec)).goOn sock thread.afterLogStart)
  | .readBlock, .filled buffer => some (p.goOn sock (thread.afterReadBlock buffer))
  | .sendAck last, .done => some (p.goOn sock (thread.afterSendAck last))
  | .logEnd last, .clock nsec =>
      some ((p.writeLog (.requestEnd nsec)).goOn sock (thread.afterLogEnd last))
  | .update last, .done => some (p.updateRequestCounter.goOn sock (thread.afterUpdate last))
  | .closeSock, .done =>
      some ({ p with table := p.table.close sock }.goOn sock thread.afterCloseSock)
  | .closeLog, .done => some (p.closeLog.goOn sock thread.afterCloseLog)
  | .sendRequest, .killed | .sendAck _, .killed => some { p with exited := true }
  | _, _ => none

/-- A call of the main thread.  When `client_run` has returned, `main` tells the flooder and
    returns. -/
def mainStep (p : ClientProcess) (r : CallResult) : Option ClientProcess :=
  match p.main, r with
  | .loopTest, .done =>
      some { p with main := if p.requestCounter ≥ 0 then .socket else .returned 0 }
  | .socket, .done =>
      some { p with table := p.table.insert .socketfh, main := .connect p.table.lowest }
  | .connect sock, .done => some { p with main := .openLog sock }
  | .openLog sock, .opened garbage =>
      some
        { p with
          table := p.table.insert .timingLog
          timingLogfh := some p.table.lowest
          main := .request sock (.start garbage) }
  -- the socket is not closed where the connection fails
  | .socket, .failed | .connect _, .failed => some { p with main := .returned (-1) }
  | .openLog _, .failed => some { p with timingLogfh := none, main := .returned (-1) }
  | .request sock thread, r => p.requestStep sock thread r
  | .returned _, .done => some { p with exited := true }
  | _, _ => none

/-! ### The process -/

/-- A call of `flooder_checks`: it reads a message, writes the marker for it, and for the control
    sequence also sets the state. -/
def listenerStep (p : ClientProcess) (a : ClientAction) : Option ClientProcess :=
  match p.listener, a with
  | .read, .hear none => some p
  | .read, .hear (some msg) =>
      match flooderMarker msg with
      | some marker => some { p with listener := .write marker, heard := p.heard ++ [marker] }
      | none => some p
  | .write marker, .write =>
      some
        { p.writeLog (.flooder marker) with
          listener := if marker = .flooderControl then .setState else .read }
  -- the state follows the line, with any number of calls of the main thread between them
  | .setState, .setState => some { p with flooderState := true, listener := .read }
  | _, _ => none

/-- The process as `main` calls `client_run`: the listener has been created, and the timing log has
    not been opened.  `withLogFile` says that log messages go to a file and that this is open, as it
    is with the options `-l` and `-v`: the first message of `main` opens it.  Without `-l` they go
    to the standard error.  With `-l` alone the first error opens the file, in the middle of a run
    and at whatever descriptor is free then; no such run starts here. -/
def start (withLogFile : Bool) : ClientProcess where
  main := .loopTest
  listener := .read
  requestCounter := 0
  flooderState := false
  timingLogfh := some 0
  table := [some .stdin, some .stdout, some .stderr]
    ++ (if withLogFile then [some .logFile] else []) ++ [some .flooderSock, some .flooderFh]
  log := []
  heard := []
  exited := false

end ClientProcess

/-- The runs of the client process. -/
def clientProcess : ActionSystem ClientProcess ClientAction where
  act p a :=
    if p.exited then none
    else
      match a with
      | .main r => p.mainStep r
      | a => p.listenerStep a

namespace ClientProcess

/-! ### What a step is -/

section Step

variable {p p' : ClientProcess} {r : CallResult} {a : ClientAction}

/-- A step of the main thread is one of its calls, in a process that has not ended. -/
theorem act_main (h : clientProcess.act p (.main r) = some p') :
    p.exited = false ∧ p.mainStep r = some p' := by
  unfold clientProcess at h
  dsimp only at h
  split_ifs at h with hexited
  exact ⟨Bool.of_not_eq_true hexited, h⟩

/-- Any other step is a call of the listener. -/
theorem act_listener (h : clientProcess.act p a = some p') (ha : ∀ r, a ≠ .main r) :
    p.exited = false ∧ p.listenerStep a = some p' := by
  unfold clientProcess at h
  dsimp only at h
  split_ifs at h with hexited
  refine ⟨Bool.of_not_eq_true hexited, ?_⟩
  cases a with
  | main r => exact absurd rfl (ha r)
  | hear msg | write | setState => exact h

end Step

/-! ### What the calls leave alone -/

variable (p : ClientProcess) (line : LogLine) (sock : Fd) (thread : ClientThread)

@[simp] theorem writeLog_table : (p.writeLog line).table = p.table := by
  unfold writeLog; split <;> rfl
@[simp] theorem writeLog_timingLogfh : (p.writeLog line).timingLogfh = p.timingLogfh := by
  unfold writeLog; split <;> rfl
@[simp] theorem writeLog_main : (p.writeLog line).main = p.main := by
  unfold writeLog; split <;> rfl
@[simp] theorem writeLog_listener : (p.writeLog line).listener = p.listener := by
  unfold writeLog; split <;> rfl
@[simp] theorem writeLog_heard : (p.writeLog line).heard = p.heard := by
  unfold writeLog; split <;> rfl
@[simp] theorem writeLog_flooderState : (p.writeLog line).flooderState = p.flooderState := by
  unfold writeLog; split <;> rfl
@[simp] theorem writeLog_requestCounter :
    (p.writeLog line).requestCounter = p.requestCounter := by
  unfold writeLog; split <;> rfl
@[simp] theorem writeLog_exited : (p.writeLog line).exited = p.exited := by
  unfold writeLog; split <;> rfl

@[simp] theorem closeLog_log : p.closeLog.log = p.log := by unfold closeLog; split <;> rfl
@[simp] theorem closeLog_listener : p.closeLog.listener = p.listener := by
  unfold closeLog; split <;> rfl
@[simp] theorem closeLog_heard : p.closeLog.heard = p.heard := by unfold closeLog; split <;> rfl
@[simp] theorem closeLog_flooderState : p.closeLog.flooderState = p.flooderState := by
  unfold closeLog; split <;> rfl
@[simp] theorem closeLog_requestCounter : p.closeLog.requestCounter = p.requestCounter := by
  unfold closeLog; split <;> rfl
@[simp] theorem closeLog_exited : p.closeLog.exited = p.exited := by
  unfold closeLog; split <;> rfl

@[simp] theorem updateRequestCounter_table : p.updateRequestCounter.table = p.table := by
  unfold updateRequestCounter; split <;> rfl
@[simp] theorem updateRequestCounter_timingLogfh :
    p.updateRequestCounter.timingLogfh = p.timingLogfh := by
  unfold updateRequestCounter; split <;> rfl
@[simp] theorem updateRequestCounter_log : p.updateRequestCounter.log = p.log := by
  unfold updateRequestCounter; split <;> rfl
@[simp] theorem updateRequestCounter_listener : p.updateRequestCounter.listener = p.listener := by
  unfold updateRequestCounter; split <;> rfl
@[simp] theorem updateRequestCounter_heard : p.updateRequestCounter.heard = p.heard := by
  unfold updateRequestCounter; split <;> rfl
@[simp] theorem updateRequestCounter_flooderState :
    p.updateRequestCounter.flooderState = p.flooderState := by
  unfold updateRequestCounter; split <;> rfl
@[simp] theorem updateRequestCounter_exited : p.updateRequestCounter.exited = p.exited := by
  unfold updateRequestCounter; split <;> rfl

@[simp] theorem goOn_table : (p.goOn sock thread).table = p.table := by unfold goOn; split <;> rfl
@[simp] theorem goOn_timingLogfh : (p.goOn sock thread).timingLogfh = p.timingLogfh := by
  unfold goOn; split <;> rfl
@[simp] theorem goOn_log : (p.goOn sock thread).log = p.log := by unfold goOn; split <;> rfl
@[simp] theorem goOn_listener : (p.goOn sock thread).listener = p.listener := by
  unfold goOn; split <;> rfl
@[simp] theorem goOn_heard : (p.goOn sock thread).heard = p.heard := by unfold goOn; split <;> rfl
@[simp] theorem goOn_flooderState : (p.goOn sock thread).flooderState = p.flooderState := by
  unfold goOn; split <;> rfl
@[simp] theorem goOn_requestCounter :
    (p.goOn sock thread).requestCounter = p.requestCounter := by
  unfold goOn; split <;> rfl

/-- Only a failed assertion ends the process. -/
theorem goOn_exited (hassert : thread.pc ≠ .assertFailed) :
    (p.goOn sock thread).exited = p.exited := by
  unfold goOn
  split <;> simp_all

/-- Until it has returned, the function goes on. -/
theorem goOn_main (hreturned : thread.pc ≠ .returned) (hillegal : thread.pc ≠ .illegalType) :
    (p.goOn sock thread).main = .request sock thread := by
  unfold goOn
  split <;> simp_all

end ClientProcess

end NetworkExperiment
