import NetworkExperiment.Lib.ActionSystem
import NetworkExperiment.Proto.Message

namespace NetworkExperiment

open ActionSystems ByteBuffers

/-!
# Whole frames over a byte stream — `cmpsc311_send_bytes`, `cmpsc311_read_bytes`

The two loops of `lib/cmpsc311_network.c` move `len` bytes through a socket by repeated `write`
or `read` calls, each of which may move any part of what was asked for.

* `CallState` — a call of one of the loops, running or returned; `sendBytesPass` and
  `readBytesPass` are one pass through their bodies, given what `write` or `read` returned;
* `Wire` — a sender that marshalls a list of messages and sends them one after another, a
  reader that receives for ever, and the bytes in flight between them.  The actions choose
  every short count and every failure, so the runs of `wire` are all segmentations and all
  interleavings;
* `Wire.Inv` — the bytes handed over so far are whole frames plus the part of the current
  frame, on each side, and the two sides differ by the bytes in flight;
* `framing_survives_segmentation` — what was received is a prefix of what was sent, cut at
  the same frame boundaries.
-/

variable {n : ℕ}

/-! ### The loops -/

/-- The state of a call of one of the loops: in front of the next system call with `moved`
    bytes done, or returned with its code. -/
inductive CallState (n : ℕ)
  | running (buf : Bytes n) (moved : ℕ)
  | returned (ret : Int) (buf : Bytes n)
deriving DecidableEq

/-- Whether a call has returned with a code can be decided, whatever its buffer. -/
instance decidableReturned (st : CallState n) (ret : Int) :
    Decidable (∃ buf, st = .returned ret buf) :=
  match st with
  | .running _ _ => isFalse (by rintro ⟨buf, h⟩; cases h)
  | .returned r buf =>
      decidable_of_iff (r = ret)
        ⟨fun h => ⟨buf, h ▸ rfl⟩, fun ⟨_, h⟩ => (CallState.returned.inj h).1⟩

/-- So can whether it is in front of a system call with some bytes done. -/
instance decidableRunning (st : CallState n) (moved : ℕ) :
    Decidable (∃ buf, st = .running buf moved) :=
  match st with
  | .running buf k =>
      decidable_of_iff (k = moved)
        ⟨fun h => ⟨buf, h ▸ rfl⟩, fun ⟨_, h⟩ => (CallState.running.inj h).2⟩
  | .returned _ _ => isFalse (by rintro ⟨buf, h⟩; cases h)

/-- The loop test `while (moved < len)`; behind the loop both functions `return (0)`. -/
def loopTest (buf : Bytes n) (moved : ℕ) : CallState n :=
  if moved < n then .running buf moved else .returned 0 buf

/-- One pass of the body shared by the loops: `buf` is the buffer after the system call and
    `r` what the call returned. -/
def transferPass (buf : Bytes n) (moved : ℕ) (r : Int) : CallState n :=
  if r < 0 then .returned (-1) buf
  else if r = 0 then .returned (-1) buf
  else loopTest buf (moved + r.toNat)

/-- One pass of `cmpsc311_send_bytes` after `write` returned `sb`. -/
def sendBytesPass (buf : Bytes n) (sentBytes : ℕ) (sb : Int) : CallState n :=
  transferPass buf sentBytes sb

/-- One pass of `cmpsc311_read_bytes` after `read` put `bytes` at `&buf[readBytes]` and
    returned `rb`. -/
def readBytesPass (buf : Bytes n) (readBytes : ℕ) (bytes : List UInt8) (rb : Int) : CallState n :=
  transferPass (buf.write readBytes bytes) readBytes rb

/-- A failing system call ends the loop with `-1`. -/
theorem transferPass_of_nonpos (buf : Bytes n) (moved : ℕ) {r : Int} (h : r ≤ 0) :
    transferPass buf moved r = .returned (-1) buf := by
  unfold transferPass
  split
  · rfl
  · rw [if_pos (by omega)]

/-- A successful one advances the count by the bytes it moved. -/
theorem transferPass_of_pos (buf : Bytes n) (moved : ℕ) {r : Int} (h : 0 < r) :
    transferPass buf moved r = loopTest buf (moved + r.toNat) := by
  unfold transferPass
  rw [if_neg (by omega), if_neg (by omega)]

/-! ### A sender and a reader -/

/-- A connection in use: the sender's messages not yet marshalled and its current (or last)
    call, the bytes in flight, the reader's current call and the messages it unmarshalled.
    `consumed` records every byte `read` has delivered. -/
structure Wire where
  toSend : List ProtoMsg
  sending : CallState sizeofProtoMsg
  pipe : List UInt8
  reading : CallState sizeofProtoMsg
  received : List ProtoMsg
  consumed : List UInt8

/-- What happens next: the sender marshalls its next message and calls `cmpsc311_send_bytes`,
    its `write` returns, the reader's `read` returns, or the reader unmarshalls a frame and
    calls `cmpsc311_read_bytes` again. -/
inductive WireAct
  | send
  | write (sb : Int)
  | read (rb : Int)
  | receive

/-- One step.  `write` takes at most what it was offered, `read` gives at most what was asked
    for and what is in flight, and each may fail at any time; after a call that returned `-1`
    a side makes no further step. -/
def Wire.act (w : Wire) : WireAct → Option Wire
  | .send =>
    match w.sending, w.toSend with
    | .returned 0 buf, m :: rest =>
      some { w with toSend := rest, sending := loopTest (marshall m buf) 0 }
    | _, _ => none
  | .write sb =>
    match w.sending with
    | .running buf sentBytes =>
      if sb ≤ (sizeofProtoMsg - sentBytes : ℕ) then
        some { w with
          sending := sendBytesPass buf sentBytes sb
          pipe := w.pipe ++ (buf.toList.drop sentBytes).take sb.toNat }
      else none
    | _ => none
  | .read rb =>
    match w.reading with
    | .running buf readBytes =>
      if rb ≤ (sizeofProtoMsg - readBytes : ℕ) ∧ rb ≤ w.pipe.length then
        some { w with
          reading := readBytesPass buf readBytes (w.pipe.take rb.toNat) rb
          pipe := w.pipe.drop rb.toNat
          consumed := w.consumed ++ w.pipe.take rb.toNat }
      else none
    | _ => none
  | .receive =>
    match w.reading with
    | .returned 0 buf =>
      some { w with reading := loopTest buf 0, received := w.received ++ [unmarshall buf] }
    | _ => none

/-- The connection as an action system. -/
def wire : ActionSystem Wire WireAct := ⟨Wire.act⟩

@[simp] theorem wire_act : wire.act = Wire.act := rfl

/-- Nothing sent, nothing in flight, the reader in front of its first `read`. -/
def Wire.start (msgs : List ProtoMsg) (sendBuf readBuf : Buffer) : Wire where
  toSend := msgs
  sending := .returned 0 sendBuf
  pipe := []
  reading := .running readBuf 0
  received := []
  consumed := []

/-! ### The invariant -/

/-- The sender's half: `out` are the bytes `write` has accepted for the messages `handed`. -/
def CallState.Sends (handed : List ProtoMsg) (out : List UInt8) : CallState sizeofProtoMsg → Prop
  | .running buf sentBytes =>
    ∃ done m, handed = done ++ [m] ∧ buf = frame m ∧ sentBytes < sizeofProtoMsg ∧
      out = frames done ++ buf.toList.take sentBytes
  | .returned 0 _ => out = frames handed
  | .returned _ _ => out <+: frames handed

/-- The reader's half: the delivered bytes are the received frames and the front of the
    current one. -/
def CallState.Receives (received : List ProtoMsg) (consumed : List UInt8) :
    CallState sizeofProtoMsg → Prop
  | .running buf readBytes =>
    readBytes < sizeofProtoMsg ∧ consumed = frames received ++ buf.toList.take readBytes
  | .returned 0 buf => consumed = frames received ++ buf.toList
  | .returned _ _ => frames received <+: consumed

/-- **The loop invariant of both sides together.** -/
def Wire.Inv (msgs : List ProtoMsg) (w : Wire) : Prop :=
  ∃ handed, msgs = handed ++ w.toSend ∧ w.sending.Sends handed (w.consumed ++ w.pipe) ∧
    w.reading.Receives w.received w.consumed

theorem CallState.Sends.initial {handed : List ProtoMsg} {out : List UInt8}
    {c : CallState sizeofProtoMsg} (h : c.Sends handed out) : out <+: frames handed := by
  match c, h with
  | .running buf sentBytes, ⟨done, m, hhanded, hbuf, _, hout⟩ =>
    subst hhanded hbuf hout
    rw [frames_append, frames_singleton]
    exact (List.prefix_append_right_inj _).mpr (List.take_prefix _ _)
  | .returned 0 _, h => exact h ▸ List.prefix_refl _
  | .returned (.ofNat (_ + 1)) _, h => exact h
  | .returned (.negSucc _) _, h => exact h

theorem CallState.Receives.initial {received : List ProtoMsg} {consumed : List UInt8}
    {c : CallState sizeofProtoMsg} (h : c.Receives received consumed) :
    frames received <+: consumed := by
  match c, h with
  | .running _ _, h => exact h.2 ▸ List.prefix_append _ _
  | .returned 0 _, h => exact h ▸ List.prefix_append _ _
  | .returned (.ofNat (_ + 1)) _, h => exact h
  | .returned (.negSucc _) _, h => exact h

theorem Wire.inv_start (msgs : List ProtoMsg) (sendBuf readBuf : Buffer) :
    (Wire.start msgs sendBuf readBuf).Inv msgs :=
  ⟨[], rfl, rfl, by decide, rfl⟩

/-- One `write` of a call in progress: the bytes it accepted extend the front of the frame. -/
theorem sendBytesPass_sends {handed : List ProtoMsg} {out : List UInt8} {buf : Buffer}
    {sentBytes : ℕ} {sb : Int} (h : (CallState.running buf sentBytes).Sends handed out) :
    (sendBytesPass buf sentBytes sb).Sends handed
      (out ++ (buf.toList.drop sentBytes).take sb.toNat) := by
  obtain ⟨done, m, hhanded, hbuf, hlt, hout⟩ := h
  rcases le_or_gt sb 0 with hneg | hpos
  · -- the call fails and moves nothing
    rw [sendBytesPass, transferPass_of_nonpos _ _ hneg, Int.toNat_of_nonpos hneg]
    rw [List.take_zero, List.append_nil]
    have hsends : CallState.Sends _ _ (.running buf sentBytes) :=
      ⟨done, m, hhanded, hbuf, hlt, hout⟩
    exact CallState.Sends.initial hsends
  · have hout' : out ++ (buf.toList.drop sentBytes).take sb.toNat
        = frames done ++ buf.toList.take (sentBytes + sb.toNat) := by
      rw [hout, List.append_assoc, List.take_add]
    rw [sendBytesPass, transferPass_of_pos _ _ hpos, loopTest, hout']
    split
    case isTrue hmore => exact ⟨done, m, hhanded, hbuf, hmore, rfl⟩
    case isFalse hend =>
      show _ = frames handed
      rw [List.take_of_length_le (by rw [buf.length_toList]; omega), hhanded, hbuf,
        frames_append, frames_singleton]

/-- One `read` of a call in progress: the bytes it delivered extend the front of the buffer. -/
theorem readBytesPass_receives {received : List ProtoMsg} {consumed bytes : List UInt8}
    {buf : Buffer} {readBytes : ℕ} {rb : Int}
    (h : (CallState.running buf readBytes).Receives received consumed)
    (hrb : rb ≤ (sizeofProtoMsg - readBytes : ℕ)) (hbytes : bytes.length = rb.toNat) :
    (readBytesPass buf readBytes bytes rb).Receives received (consumed ++ bytes) := by
  obtain ⟨hlt, hconsumed⟩ := h
  rcases le_or_gt rb 0 with hneg | hpos
  · rw [readBytesPass, transferPass_of_nonpos _ _ hneg]
    show frames received <+: _
    rw [hconsumed, List.append_assoc]
    exact List.prefix_append _ _
  · have hfit : readBytes + bytes.length ≤ sizeofProtoMsg := by omega
    have hconsumed' : consumed ++ bytes
        = frames received ++ (buf.write readBytes bytes).toList.take (readBytes + rb.toNat) := by
      rw [hconsumed, Bytes.toList_write buf hfit, ← hbytes, List.append_assoc, List.take_append]
      have hfront : (buf.toList.take readBytes ++ bytes).length = readBytes + bytes.length := by
        simp; omega
      rw [hfront, Nat.sub_self, List.take_zero, List.append_nil,
        List.take_of_length_le (Nat.le_of_eq hfront)]
    rw [readBytesPass, transferPass_of_pos _ _ hpos, loopTest]
    split
    case isTrue hmore => exact ⟨hmore, hconsumed'⟩
    case isFalse hend =>
      rw [List.take_of_length_le (by rw [Bytes.length_toList]; omega)] at hconsumed'
      exact hconsumed'

/-- **Step lemma.** Every step keeps both halves. -/
theorem Wire.inv_step (msgs : List ProtoMsg) : wire.Invariant (Wire.Inv msgs) := by
  rintro w a w' ⟨handed, hmsgs, hsend, hrecv⟩ hact
  cases a with
  | send =>
    simp only [wire_act, Wire.act] at hact
    split at hact
    case h_1 buf m rest hret htodo =>
      -- the next message is handed over, with none of its bytes written
      cases hact
      rw [hret] at hsend
      refine ⟨handed ++ [m], ?_, ?_, hrecv⟩
      · rw [hmsgs, htodo, List.append_assoc, List.singleton_append]
      · exact ⟨handed, m, rfl, marshall_eq_frame m buf, by decide, by
          rw [List.take_zero, List.append_nil]; exact hsend⟩
    case h_2 => cases hact
  | write sb =>
    simp only [wire_act, Wire.act] at hact
    split at hact
    case h_1 buf sentBytes hrun =>
      split at hact
      case isTrue hsb =>
        cases hact
        rw [hrun] at hsend
        have := @sendBytesPass_sends _ _ _ _ sb hsend
        rw [List.append_assoc] at this
        exact ⟨handed, hmsgs, this, hrecv⟩
      case isFalse => cases hact
    case h_2 => cases hact
  | read rb =>
    simp only [wire_act, Wire.act] at hact
    split at hact
    case h_1 buf readBytes hrun =>
      split at hact
      case isTrue hrb =>
        -- the bytes go from the pipe to the consumed ones, and stay in order
        cases hact
        rw [hrun] at hrecv
        refine ⟨handed, hmsgs, ?_, readBytesPass_receives hrecv hrb.1 ?_⟩
        · rw [List.append_assoc, List.take_append_drop]
          exact hsend
        · rw [List.length_take]
          omega
      case isFalse => cases hact
    case h_2 => cases hact
  | receive =>
    simp only [wire_act, Wire.act] at hact
    split at hact
    case h_1 buf hret =>
      -- the buffer that the read has filled is a whole frame
      cases hact
      rw [hret] at hrecv
      refine ⟨handed, hmsgs, hsend, by decide, ?_⟩
      rw [List.take_zero, List.append_nil, frames_append, frames_singleton, frame_unmarshall]
      exact hrecv
    case h_2 => cases hact

theorem Wire.inv_run {msgs : List ProtoMsg} {sendBuf readBuf : Buffer} {acts : List WireAct}
    {w : Wire} (h : wire.run acts (Wire.start msgs sendBuf readBuf) = some w) : w.Inv msgs :=
  (Wire.inv_step msgs).run (Wire.inv_start msgs sendBuf readBuf) h

/-- What was received is a prefix of what was sent, whatever failed and wherever it did. -/
theorem Wire.Inv.prefix_received {msgs : List ProtoMsg} {w : Wire} (h : w.Inv msgs) :
    w.received <+: msgs := by
  obtain ⟨handed, hmsgs, hsend, hrecv⟩ := h
  have hbytes : frames w.received <+: frames handed :=
    hrecv.initial.trans ((List.prefix_append _ _).trans hsend.initial)
  exact (prefix_of_frames hbytes).trans (hmsgs ▸ List.prefix_append _ _)

/-! ### Framing -/

/-- **Framing survives any segmentation.**  In every run of a sender and a reader, with any
    short counts, any interleaving and any failures: the messages unmarshalled are a prefix of
    the messages sent; whenever the reader is about to start on a frame it has consumed
    exactly the frames of the messages it unmarshalled; and once it has unmarshalled as many
    as were sent, they are the ones sent and no byte is left over. -/
theorem framing_survives_segmentation (msgs : List ProtoMsg) (sendBuf readBuf : Buffer)
    (acts : List WireAct) (w : Wire)
    (h : wire.run acts (Wire.start msgs sendBuf readBuf) = some w) :
    w.received <+: msgs ∧
    (∀ buf, w.reading = .running buf 0 → w.consumed = frames w.received) ∧
    (w.received.length = msgs.length →
      w.received = msgs ∧ w.consumed = frames msgs ∧ w.pipe = []) := by
  have hinv := Wire.inv_run h
  have hinitial := hinv.prefix_received
  obtain ⟨handed, hmsgs, hsend, hrecv⟩ := hinv
  refine ⟨hinitial, fun buf hbuf => ?_, fun hlen => ?_⟩
  · rw [hbuf] at hrecv
    rw [hrecv.2, List.take_zero, List.append_nil]
  · have heq : w.received = msgs := hinitial.eq_of_length hlen
    have hhanded : frames handed <+: frames msgs := by
      rw [hmsgs, frames_append]
      exact List.prefix_append _ _
    -- the consumed bytes lie between the received frames and the sent ones
    have hall : w.consumed ++ w.pipe = w.consumed := by
      have hle := (hsend.initial.trans hhanded).length_le
      have hge := hrecv.initial.length_le
      rw [heq] at hge
      have hpipe : w.pipe = [] := by
        apply List.eq_nil_of_length_eq_zero
        rw [List.length_append] at hle
        omega
      rw [hpipe, List.append_nil]
    have hpipe : w.pipe = [] := List.self_eq_append_right.mp hall.symm
    have hconsumed : w.consumed <+: frames msgs :=
      (List.prefix_append _ _).trans (hsend.initial.trans hhanded)
    exact ⟨heq, hconsumed.eq_of_length_le (heq ▸ hrecv.initial.length_le), hpipe⟩

/-- The calls can all return `0`: one message more is delivered, here in one piece, from a
    state in which both sides are between two frames. -/
theorem Wire.delivers_next (w : Wire) (m : ProtoMsg) (rest : List ProtoMsg)
    (sendBuf readBuf : Buffer)
    (htodo : w.toSend = m :: rest) (hsend : w.sending = .returned 0 sendBuf) (hpipe : w.pipe = [])
    (hread : w.reading = .running readBuf 0) :
    ∃ w' : Wire, wire.Reaches w w' ∧ w'.toSend = rest ∧ w'.sending = .returned 0 (frame m) ∧
      w'.pipe = [] ∧ w'.reading = .running (frame m) 0 ∧ w'.received = w.received ++ [m] := by
  have hwrite : readBuf.write 0 (frame m).toList = frame m :=
    Bytes.ext (Bytes.toList_write_zero_of_length _ (frame m).length_toList)
  have hlen : sizeofProtoMsg = 8100 := rfl
  have htake : (frame m).toList.take 8100 = (frame m).toList :=
    List.take_of_length_le (by rw [(frame m).length_toList, hlen])
  have hdrop : (frame m).toList.drop 8100 = [] :=
    List.drop_of_length_le (by rw [(frame m).length_toList, hlen])
  refine ⟨⟨rest, .returned 0 (frame m), [], .running (frame m) 0, w.received ++ [m],
    w.consumed ++ (frame m).toList⟩, ⟨[.send, .write 8100, .read 8100, .receive], ?_⟩,
    rfl, rfl, rfl, rfl, rfl⟩
  simp [wire, Wire.act, htodo, hsend, hpipe, hread, loopTest, sendBytesPass, readBytesPass,
    transferPass, hlen, htake, hdrop, hwrite]

/-- Every list of messages can be delivered in full. -/
theorem Wire.delivers (msgs : List ProtoMsg) (w : Wire) (sendBuf readBuf : Buffer)
    (htodo : w.toSend = msgs) (hsend : w.sending = .returned 0 sendBuf) (hpipe : w.pipe = [])
    (hread : w.reading = .running readBuf 0) :
    ∃ w' : Wire, wire.Reaches w w' ∧ w'.received = w.received ++ msgs := by
  induction msgs generalizing w sendBuf readBuf with
  | nil => exact ⟨w, .refl _ w, by simp⟩
  | cons m rest ih =>
    obtain ⟨w₁, hreach, htodo₁, hsend₁, hpipe₁, hread₁, hrecv₁⟩ :=
      w.delivers_next m rest sendBuf readBuf htodo hsend hpipe hread
    obtain ⟨w₂, hreach₂, hrecv₂⟩ := ih w₁ _ _ htodo₁ hsend₁ hpipe₁ hread₁
    exact ⟨w₂, hreach.trans hreach₂, by rw [hrecv₂, hrecv₁, List.append_assoc]; rfl⟩

/-- A request in pieces: its frame is cut behind byte 100 by a short `write`, and behind bytes 60
    and 4000 by short `read`s, the first of which comes before the second `write`. -/
def requestInPieces : List WireAct :=
  [.send, .write 100, .read 60, .write (sizeofProtoMsg - 100), .read 3940,
    .read (sizeofProtoMsg - 4000), .receive]

/-- A request in pieces, and an acknowledgement behind it. -/
theorem framing_survives_segmentation_delivered :
    ∃ acts w, wire.run (requestInPieces ++ acts) (Wire.start [.blank .reqFile, .blank .fileBlockAck]
        (.zero sizeofProtoMsg) (.zero sizeofProtoMsg)) = some w ∧
      w.received = [.blank .reqFile, .blank .fileBlockAck] ∧ w.pipe = [] := by
  have hcut : ((wire.run requestInPieces (Wire.start [.blank .reqFile, .blank .fileBlockAck]
      (.zero sizeofProtoMsg) (.zero sizeofProtoMsg))).any fun w =>
        decide (w.toSend.length = 1 ∧ (∃ buf, w.sending = .returned 0 buf) ∧ w.pipe = [] ∧
          (∃ buf, w.reading = .running buf 0) ∧ w.received.length = 1)) = true := by
    decide +kernel
  obtain ⟨w₁, hrun₁, hw₁⟩ := (Option.any_eq_true _ _).mp hcut
  obtain ⟨htodo, ⟨sendBuf, hsend⟩, hpipe, ⟨readBuf, hread⟩, hone⟩ := of_decide_eq_true hw₁
  obtain ⟨m, htodo⟩ := List.length_eq_one_iff.mp htodo
  -- the acknowledgement is delivered from there
  obtain ⟨w, ⟨acts, hrun⟩, hreceived⟩ := w₁.delivers _ _ _ htodo hsend hpipe hread
  have hboth : wire.run (requestInPieces ++ acts) (Wire.start [.blank .reqFile,
      .blank .fileBlockAck] (.zero sizeofProtoMsg) (.zero sizeofProtoMsg)) = some w := by
    rw [ActionSystem.run_append, hrun₁]
    exact hrun
  have hall := (framing_survives_segmentation _ _ _ _ w hboth).2.2
    (by rw [hreceived, List.length_append, hone]; rfl)
  exact ⟨acts, w, hboth, hall.1, hall.2.2⟩

end NetworkExperiment
