import NetworkExperiment.Lib.ActionSystem
import NetworkExperiment.Client.Process

namespace NetworkExperiment

open ActionSystems ByteBuffers

/-!
# The flooder — `flooder_run`

* `FlooderSocks` — the settings of a run;
* `FlooderPc` — the call that the loop is in front of;
* `FlooderEvent` — a clock reading, a message to the client or a datagram to the sink;
* `Flooder` — the local variables, and a record of the events so far;
* `flooderRun` — its runs, each call one step.

What the calls return is part of the action.  Times are in seconds, and no addition of times
overflows.  The line that `log_request_start` writes into the flooder's own timing log is left out.
-/

/-! ### Data -/

/-- `flooder_socks`: the fields that `flooder_run` reads, but for the sockets. -/
structure FlooderSocks where
  /-- What `BLOCK_SIZE * socks->scale` gives. -/
  dataSize : ℤ
  withControl : Int32
  duration : Int32
deriving DecidableEq, Repr

/-- The pauses of `duration` seconds: in front of a cycle, or in place of the flood. -/
inductive Pause
  | beforeStart
  | beforeEnd
deriving DecidableEq, Repr

/-- The call that `flooder_run` is in front of.  `spinStart` and `spinLoop` are the readings of the
    clock in `spin`, the second one with the time at which the pause is over. -/
inductive FlooderPc
  | openRandom
  | readRandom
  | clockStart
  | sleep (pause : Pause)
  | spinStart (pause : Pause)
  | spinLoop (pause : Pause) (till : ℤ)
  | notifyStart
  | clockWindow
  | logStart
  | notifyControl
  | sendDatagram
  | clockDatagram
  | notifyEnd
  | returned (ret : ℤ)
deriving DecidableEq, Repr

/-- What `flooder_run` does that the others see, and the readings of the clock. -/
inductive FlooderEvent
  | clock (sec : ℤ)
  /-- `write(socks->client_sock, msg, 6)`. -/
  | notify (msg : Bytes 6)
  /-- `write(socks->udp_sock, rbuf, data_size)`, and whether it has sent anything. -/
  | datagram (sent : Bool)
deriving DecidableEq, Repr

/-- The flooder: its settings, where it is, and the local variables of `flooder_run`.  `trace` is a
    record of its events for the statements. -/
structure Flooder where
  socks : FlooderSocks
  flooderNoFlood : Bool
  pc : FlooderPc
  notifiedControl : Bool
  startTime : ℤ
  clocktime : ℤ
  currenttime : ℤ
  sendBytes : ℤ
  sentBytes : ℤ
  trace : List FlooderEvent
  exited : Bool
deriving DecidableEq, Repr

/-- What a call returns. -/
inductive FlooderAction
  /-- The call returns, and the code makes no more of it. -/
  | done
  /-- It returns `-1`. -/
  | failed
  /-- The reading of the clock. -/
  | clock (sec : ℤ)
  /-- The process ends: a write raises `SIGPIPE`, or `flooder_test_connection` calls `exit`. -/
  | killed
deriving DecidableEq, Repr

/-- `"START"`. -/
def clientStart : Bytes 6 := ⟨[83, 84, 65, 82, 84, 0], rfl⟩

/-- `"ENDIN"`. -/
def clientEnd : Bytes 6 := ⟨[69, 78, 68, 73, 78, 0], rfl⟩

/-- `"CONTRO"`, which leaves no room for the terminating `NUL`. -/
def clientControl : Bytes 6 := ⟨[67, 79, 78, 84, 82, 79], rfl⟩

namespace Flooder

/-! ### Where the loop goes on -/

/-- An event is recorded. -/
def emit (f : Flooder) (e : FlooderEvent) : Flooder := { f with trace := f.trace ++ [e] }

/-- The flooder spins or sleeps. -/
def pausePc (f : Flooder) (p : Pause) : FlooderPc :=
  if f.flooderNoFlood then .spinStart p else .sleep p

/-- A pause is over. -/
def resumePc : Pause → FlooderPc
  | .beforeStart => .notifyStart
  | .beforeEnd => .notifyEnd

/-- The test of the loop in `spin`, which reads the clock until the time has come. -/
def spinPc (p : Pause) (till currenttime : ℤ) : FlooderPc :=
  if currenttime < till then .spinLoop p till else resumePc p

/-- The test of the loop that floods: the window ends `duration` seconds behind its beginning, by
    the last reading of the clock. -/
def floodPc (f : Flooder) : FlooderPc :=
  if f.currenttime < f.clocktime + f.socks.duration.toInt then .sendDatagram else .notifyEnd

/-- The window, with the flood or without it: there is none in the control sequence, and none if
    the flooder is to spin only. -/
def windowPc (f : Flooder) : FlooderPc :=
  -- once the control sequence has been announced, no cycle floods any more
  if f.socks.withControl ≠ 0 ∧ f.notifiedControl then f.pausePc .beforeEnd
  else if f.flooderNoFlood then .spinStart .beforeEnd
  else f.floodPc

/-- The test whether the control sequence starts: a minute has passed since the start, and it has
    not been announced yet. -/
def controlPc (f : Flooder) : FlooderPc :=
  if f.socks.withControl ≠ 0 ∧ f.currenttime - f.startTime ≥ 60 ∧ !f.notifiedControl then
    .notifyControl
  else f.windowPc

/-! ### The calls -/

/-- A call of `flooder_run`, with what it returns.  A result that the call cannot have is no
    step. -/
def callStep (f : Flooder) (r : FlooderAction) : Option Flooder :=
  match f.pc, r with
  | .openRandom, .done => some { f with pc := .readRandom }
  | .readRandom, .done => some { f with pc := .clockStart }
  | .openRandom, .failed | .readRandom, .failed => some { f with pc := .returned (-1) }
  | .clockStart, .clock sec =>
      let f := { f.emit (.clock sec) with startTime := sec }
      some { f with pc := f.pausePc .beforeStart }
  | .sleep p, .done => some { f with pc := resumePc p }
  | .spinStart p, .clock sec =>
      some { f.emit (.clock sec) with pc := spinPc p (sec + f.socks.duration.toInt) sec }
  | .spinLoop p till, .clock sec => some { f.emit (.clock sec) with pc := spinPc p till sec }
  | .notifyStart, .done => some { f.emit (.notify clientStart) with pc := .clockWindow }
  | .clockWindow, .clock sec =>
      -- the window begins where the message has been written
      some { f.emit (.clock sec) with clocktime := sec, currenttime := sec, pc := .logStart }
  | .logStart, .done =>
      let f := { f with sendBytes := 0, sentBytes := 0 }
      some { f with pc := f.controlPc }
  | .notifyControl, .done =>
      let f := { f.emit (.notify clientControl) with notifiedControl := true }
      some { f with pc := f.windowPc }
  | .sendDatagram, .done =>
      some
        { f.emit (.datagram true) with
          sentBytes := f.sentBytes + f.socks.dataSize
          sendBytes := f.sendBytes + f.socks.dataSize
          pc := .clockDatagram }
  | .sendDatagram, .failed =>
      -- a write that fails is counted as tried
      some
        { f.emit (.datagram false) with
          sendBytes := f.sendBytes + f.socks.dataSize
          pc := .clockDatagram }
  | .clockDatagram, .clock sec =>
      let f := { f.emit (.clock sec) with currenttime := sec }
      some { f with pc := f.floodPc }
  | .notifyEnd, .done =>
      let f := f.emit (.notify clientEnd)
      some { f with pc := f.pausePc .beforeStart }
  | _, .killed => some { f with exited := true }
  | _, _ => none

/-- The flooder as `flooder_create` leaves it.  The times are written before they are read. -/
def start (socks : FlooderSocks) (flooderType : Int32) : Flooder where
  socks := socks
  flooderNoFlood := flooderType = -1
  pc := .openRandom
  notifiedControl := false
  startTime := 0
  clocktime := 0
  currenttime := 0
  sendBytes := 0
  sentBytes := 0
  trace := []
  exited := false

end Flooder

/-- The runs of the flooder. -/
def flooderRun : ActionSystem Flooder FlooderAction where
  act f r := if f.exited then none else f.callStep r

/-! ### What a run shows -/

/-- The message of an event. -/
def FlooderEvent.message : FlooderEvent → Option (Bytes 6)
  | .notify msg => some msg
  | _ => none

/-- The reading of an event. -/
def FlooderEvent.reading : FlooderEvent → Option ℤ
  | .clock sec => some sec
  | _ => none

namespace Flooder

/-- The messages written to `client_sock`. -/
def messages (f : Flooder) : List (Bytes 6) := f.trace.filterMap FlooderEvent.message

/-- The messages of a cycle, with `CONTRO` or without: the control sequence is announced once,
    between the messages of one window. -/
def cycle (control : Bool) : List (Bytes 6) :=
  clientStart :: ((if control then [clientControl] else []) ++ [clientEnd])

end Flooder

end NetworkExperiment
