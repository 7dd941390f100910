import NetworkExperiment.Lib.MarkedWords
import NetworkExperiment.Flooder.Run
import NetworkExperiment.Network.Transfer

namespace NetworkExperiment

open ActionSystems ByteBuffers MarkedWords

/-!
# The flooder's messages on their way to the client

`flooder_run` writes its messages into a stream socket and does not look at how much of them
`write` has taken; `flooder_checks` reads the stream in pieces of six bytes.

* `Notifications` / `notifications` — the flooder, the stream and the listener, with short writes,
  short reads and failing reads;
* `Notifications.Inv` — the pieces that have been recognised are messages that were written in full;
* `recognised` — the messages that are written in full at a multiple of six bytes;
* `notifications_sound` / `notifications_exact` — what the listener hears.
-/

/-! ### The system -/

/-- The message of six bytes for which the listener writes a marker. -/
def FlooderMarker.message : FlooderMarker → Bytes 6
  | .flooderStart => clientStart
  | .flooderEnd => clientEnd
  | .flooderControl => clientControl

/-- The message that the call at `pc` writes to the client. -/
def FlooderPc.writes : FlooderPc → Option FlooderMarker
  | .notifyStart => some .flooderStart
  | .notifyControl => some .flooderControl
  | .notifyEnd => some .flooderEnd
  | _ => none

/-- The flooder, the messages with the number of bytes that `write` has taken, the bytes in flight,
    the call of `cmpsc311_read_bytes`, the markers that are due, and all bytes read. -/
structure Notifications where
  flooder : Flooder
  written : List (FlooderMarker × ℕ)
  pipe : List UInt8
  reading : CallState 6
  heard : List FlooderMarker
  consumed : List UInt8

/-- The flooder makes a call, in which a `write` takes `n` bytes; the `read` of the listener
    returns; or the listener looks at what `cmpsc311_read_bytes` has returned. -/
inductive NotificationAct
  | flooder (r : FlooderAction) (n : ℕ)
  | read (rb : Int)
  | check

namespace Notifications

/-- A call of the flooder.  A `write` takes a part of the message, from its beginning; one that
    fails takes nothing, and the flooder does not look at either. -/
def flooderStep (s : Notifications) (r : FlooderAction) (n : ℕ) : Option Notifications :=
  match flooderRun.act s.flooder r with
  | none => none
  | some f =>
    match s.flooder.pc.writes, r with
    | some m, .done =>
      if n ≤ 6 then
        some
          { s with
            flooder := f
            written := s.written ++ [(m, n)]
            pipe := s.pipe ++ m.message.toList.take n }
      else none
    | _, _ => some { s with flooder := f }

/-- A `read` of the listener, as in `Wire.act`: it returns some of the bytes in flight, no more
    than are missing, or fails. -/
def readStep (s : Notifications) (rb : Int) : Option Notifications :=
  match s.reading with
  | .running buf readBytes =>
    if rb ≤ (6 - readBytes : ℕ) ∧ rb ≤ s.pipe.length then
      some
        { s with
          reading := readBytesPass buf readBytes (s.pipe.take rb.toNat) rb
          pipe := s.pipe.drop rb.toNat
          consumed := s.consumed ++ s.pipe.take rb.toNat }
    else none
  | .returned _ _ => none

/-- The listener compares the message, if it has been read, and reads again. -/
def checkStep (s : Notifications) : Option Notifications :=
  match s.reading with
  | .running _ _ => none
  | .returned ret buf =>
    some
      { s with
        reading := .running buf 0
        heard := s.heard ++ if ret = 0 then (flooderMarker buf).toList else [] }

/-- Nothing written and nothing read, and the listener in its first call; `garbage` is what
    `malloc` left in the buffer. -/
def start (socks : FlooderSocks) (flooderType : Int32) (garbage : Bytes 6) : Notifications where
  flooder := .start socks flooderType
  written := []
  pipe := []
  reading := .running garbage 0
  heard := []
  consumed := []

end Notifications

/-- The runs. -/
def notifications : ActionSystem Notifications NotificationAct where
  act s
    | .flooder r n => s.flooderStep r n
    | .read rb => s.readStep rb
    | .check => s.checkStep

/-! ### What a step is -/

namespace Notifications

section Steps

variable {s s' : Notifications}

/-- A call of the flooder is a `write` that takes `n` bytes, or writes nothing.  The test of
    `flooderStep` on the result of the call is behind the two cases. -/
theorem flooderStep_cases {r : FlooderAction} {n : ℕ} (h : s.flooderStep r n = some s') :
    ∃ f, flooderRun.act s.flooder r = some f ∧
      ((∃ m, s.flooder.pc.writes = some m ∧ r = .done ∧ n ≤ 6 ∧
          s' = { s with
            flooder := f
            written := s.written ++ [(m, n)]
            pipe := s.pipe ++ m.message.toList.take n }) ∨
        ((r = .done → s.flooder.pc.writes = none) ∧ s' = { s with flooder := f })) := by
  unfold flooderStep at h
  split at h
  case h_1 => cases h
  case h_2 f hact =>
    refine ⟨f, hact, ?_⟩
    split at h
    case h_1 m hwrites =>
      split_ifs at h with hn
      exact .inl ⟨m, hwrites, rfl, hn, (Option.some.inj h).symm⟩
    case h_2 hother =>
      refine .inr ⟨fun hdone => ?_, (Option.some.inj h).symm⟩
      cases hwrites : s.flooder.pc.writes with
      | none => rfl
      | some m => exact absurd hdone (hother m hwrites)

/-- A `read` returns within a call of `cmpsc311_read_bytes`. -/
theorem readStep_cases {rb : Int} (h : s.readStep rb = some s') :
    ∃ buf readBytes, s.reading = .running buf readBytes ∧ rb ≤ (6 - readBytes : ℕ) ∧
      rb ≤ s.pipe.length ∧
      s' = { s with
        reading := readBytesPass buf readBytes (s.pipe.take rb.toNat) rb
        pipe := s.pipe.drop rb.toNat
        consumed := s.consumed ++ s.pipe.take rb.toNat } := by
  unfold readStep at h
  split at h
  case h_1 buf readBytes hreading =>
    split_ifs at h with hrb
    exact ⟨buf, readBytes, hreading, hrb.1, hrb.2, (Option.some.inj h).symm⟩
  case h_2 => cases h

/-- The listener looks at a message behind the call. -/
theorem checkStep_cases (h : s.checkStep = some s') :
    ∃ ret buf, s.reading = .returned ret buf ∧
      s' = { s with
        reading := .running buf 0
        heard := s.heard ++ if ret = 0 then (flooderMarker buf).toList else [] } := by
  unfold checkStep at h
  split at h
  case h_1 => cases h
  case h_2 ret buf hreading => exact ⟨ret, buf, hreading, (Option.some.inj h).symm⟩

end Steps

end Notifications

/-! ### The messages -/

/-- The letters of a message. -/
def letters (m : FlooderMarker) : List UInt8 := m.message.toList

theorem length_letters (m : FlooderMarker) : (letters m).length = 6 := m.message.length_toList

/-- What stands in front of the first `NUL`: all bytes if there are no more of them, and all but
    the `NUL` itself if there is one more. -/
theorem eq_of_takeWhile {bs s : List UInt8} (h : bs.takeWhile (· ≠ 0) = s) :
    (bs.length = s.length → bs = s) ∧ (bs.length = s.length + 1 → bs = s ++ [0]) := by
  have hsplit := List.takeWhile_append_dropWhile (p := fun b : UInt8 => decide (b ≠ 0)) (l := bs)
  rw [h] at hsplit
  have hlen := congrArg List.length hsplit
  rw [List.length_append] at hlen
  constructor
  · intro heq
    have hnil := List.eq_nil_of_length_eq_zero
      (show (bs.dropWhile fun b : UInt8 => decide (b ≠ 0)).length = 0 by omega)
    rw [hnil, List.append_nil] at hsplit
    exact hsplit.symm
  · intro heq
    obtain ⟨b, hb⟩ := List.length_eq_one_iff.mp
      (show (bs.dropWhile fun b : UInt8 => decide (b ≠ 0)).length = 1 by omega)
    -- the letter behind them is the `NUL`
    have hzero := List.head_dropWhile_not (fun b : UInt8 => decide (b ≠ 0))
      (show bs.dropWhile _ ≠ [] by rw [hb]; exact List.cons_ne_nil _ _)
    simp only [hb, List.head_cons, decide_eq_false_iff_not, not_not] at hzero
    rw [← hsplit, hb, hzero]

/-- A message is what stands in front of its first `NUL`: `START` and `ENDIN` have one behind them,
    `CONTROL` fills its six bytes without one. -/
theorem message_iff (b : Bytes 6) (m : FlooderMarker) :
    b.toList.takeWhile (· ≠ 0) = (letters m).takeWhile (· ≠ 0) ↔ b = m.message := by
  constructor
  · intro h
    obtain ⟨hfull, hshort⟩ := eq_of_takeWhile h
    rw [b.length_toList] at hfull hshort
    apply Bytes.ext
    cases m with
    | flooderStart | flooderEnd => exact hshort rfl
    | flooderControl => exact hfull rfl
  · rintro rfl
    rfl

/-- `strncmp` with the name of a message: of the name, only the part within six bytes counts. -/
theorem strncmpZero_iff (b : Bytes 6) (m : FlooderMarker) {s : List UInt8}
    (hs : (s.take 6).takeWhile (· ≠ 0) = (letters m).takeWhile (· ≠ 0)) :
    strncmpZero b.toList s 6 = true ↔ b = m.message := by
  unfold strncmpZero
  rw [hs, List.take_of_length_le (Nat.le_of_eq b.length_toList), decide_eq_true_iff, message_iff]

/-- The listener recognises exactly the messages. -/
theorem flooderMarker_eq_some {b : Bytes 6} {m : FlooderMarker} :
    flooderMarker b = some m ↔ b = m.message := by
  constructor
  · intro h
    unfold flooderMarker at h
    split_ifs at h with hstart hend hcontrol
    · rw [← Option.some.inj h]
      exact (strncmpZero_iff b .flooderStart (by decide)).mp hstart
    · rw [← Option.some.inj h]
      exact (strncmpZero_iff b .flooderEnd (by decide)).mp hend
    · rw [← Option.some.inj h]
      exact (strncmpZero_iff b .flooderControl (by decide)).mp hcontrol
  · rintro rfl
    cases m <;> decide

/-- Each message begins with a letter that the messages have nowhere else. -/
theorem marked_letters : Marked letters := by
  constructor
  · intro m
    exact List.ne_nil_of_length_pos (by rw [length_letters]; decide)
  · intro i j k a hi hj
    have hk : k < 6 := by
      rw [← length_letters j]
      exact (List.getElem?_eq_some_iff.mp hj).1
    -- at the other places, the letters are different ones
    have hall : ∀ k < 6, (letters i)[0]? = (letters j)[k]? → k = 0 ∧ j = i := by
      cases i <;> cases j <;> decide
    exact hall k hk (hi.trans hj.symm)

/-! ### Soundness -/

/-- The messages that have been written in full. -/
def whole (ws : List (FlooderMarker × ℕ)) : List FlooderMarker :=
  (ws.filter fun w => 6 ≤ w.2).map Prod.fst

/-- The messages of two pieces of the run. -/
theorem whole_append (ws vs : List (FlooderMarker × ℕ)) :
    whole (ws ++ vs) = whole ws ++ whole vs := by
  unfold whole
  rw [List.filter_append, List.map_append]

/-- The call of the listener: in front of it, the bytes `pre` have been read. -/
def Notifications.Call (s : Notifications) (pre : List UInt8) : Prop :=
  match s.reading with
  | .running buf readBytes => readBytes < 6 ∧ s.consumed = pre ++ buf.toList.take readBytes
  | .returned ret buf => if ret = 0 then s.consumed = pre ++ buf.toList else pre <+: s.consumed

/-- The markers of the bytes `pre` are those of messages that were written in full: all of them
    come from messages `done` whose bytes lie within `pre`. -/
def Notifications.Sound (s : Notifications) (pre : List UInt8) : Prop :=
  ∃ done rest, s.written = done ++ rest ∧ (stream letters done).length ≤ pre.length ∧
    s.heard.Sublist (whole done)

/-- **The invariant.**  The messages are those of the flooder, their bytes are read or in flight,
    and what has been heard is sound for the bytes in front of the present call. -/
structure Notifications.Inv (s : Notifications) : Prop where
  messages : s.written.map (fun w => w.1.message) = s.flooder.messages
  stream : stream letters s.written = s.consumed ++ s.pipe
  call : ∃ pre, s.Call pre ∧ s.Sound pre

/-- What a call of the flooder writes. -/
theorem messages_act {f f' : Flooder} {r : FlooderAction} (h : flooderRun.act f r = some f') :
    f'.messages = f.messages ++
      if r = .done then (f.pc.writes.map FlooderMarker.message).toList else [] := by
  simp only [flooderRun] at h
  split_ifs at h with hexited
  unfold Flooder.callStep at h
  split at h
  all_goals first
    | cases h
      simp_all [Flooder.messages, Flooder.emit, FlooderEvent.message, FlooderPc.writes,
        FlooderMarker.message]
    | cases h

namespace Notifications

variable {s s' : Notifications}

theorem inv_start (socks : FlooderSocks) (flooderType : Int32) (garbage : Bytes 6) :
    (start socks flooderType garbage).Inv :=
  ⟨rfl, rfl, [], ⟨by decide, rfl⟩, [], [], rfl, Nat.zero_le _, .slnil⟩

/-- What is heard of the bytes read stays sound as more is written and read. -/
theorem Sound.mono {pre pre' : List UInt8} (h : s.Sound pre) {rest' : List (FlooderMarker × ℕ)}
    (hwritten : s'.written = s.written ++ rest') (hheard : s'.heard = s.heard)
    (hle : pre.length ≤ pre'.length) : s'.Sound pre' := by
  obtain ⟨done, rest, hsplit, hlen, hsub⟩ := h
  exact ⟨done, rest ++ rest', by rw [hwritten, hsplit, List.append_assoc], hlen.trans hle,
    by rwa [hheard]⟩

/-- A call of the flooder keeps the invariant. -/
theorem Inv.flooderStep {r : FlooderAction} {n : ℕ} (h : s.Inv)
    (hstep : s.flooderStep r n = some s') : s'.Inv := by
  obtain ⟨hmessages, hstream, pre, hcall, hsound⟩ := h
  obtain ⟨f, hact, ⟨m, hwrites, rfl, -, rfl⟩ | ⟨hnone, rfl⟩⟩ := flooderStep_cases hstep
  · -- a message more, the first `n` bytes of which are in flight
    have hnext := messages_act hact
    rw [if_pos rfl, hwrites] at hnext
    refine ⟨?_, ?_, pre, hcall, hsound.mono rfl rfl (le_refl _)⟩
    · rw [hnext, ← hmessages, List.map_append]
      rfl
    · rw [stream_append, hstream, stream_cons, stream_nil, List.append_nil, List.append_assoc]
      rfl
  · -- nothing is written, so the messages stay
    have hnext := messages_act hact
    have hnothing : (if r = .done then (s.flooder.pc.writes.map FlooderMarker.message).toList
        else []) = [] := by
      split_ifs with hdone
      · rw [hnone hdone]
        rfl
      · rfl
    rw [hnothing, List.append_nil] at hnext
    exact ⟨hmessages.trans hnext.symm, hstream, pre, hcall, hsound⟩

/-- What a `read` leaves of the call. -/
theorem Call.readStep {rb : Int} {pre : List UInt8} (h : s.Call pre)
    (hstep : s.readStep rb = some s') : s'.Call pre := by
  obtain ⟨buf, readBytes, hreading, hroom, hpipe, rfl⟩ := readStep_cases hstep
  unfold Call at h ⊢
  rw [hreading] at h
  obtain ⟨hlt, hconsumed⟩ := h
  dsimp only
  rcases le_or_gt rb 0 with hneg | hpos
  · -- the call fails; what it has read is lost
    rw [readBytesPass, transferPass_of_nonpos _ _ hneg]
    dsimp only
    rw [if_neg (by decide), hconsumed, List.append_assoc]
    exact List.prefix_append _ _
  · have hlen : (s.pipe.take rb.toNat).length = rb.toNat := by
      rw [List.length_take]
      omega
    -- the buffer holds what this call has read, and then the bytes of the `read`
    have hfront : (buf.toList.take readBytes ++ s.pipe.take rb.toNat).length
        = readBytes + rb.toNat := by
      rw [List.length_append, hlen, List.length_take, buf.length_toList]
      omega
    have htake : (buf.write readBytes (s.pipe.take rb.toNat)).toList.take (readBytes + rb.toNat)
        = buf.toList.take readBytes ++ s.pipe.take rb.toNat := by
      rw [Bytes.toList_write buf (by omega), List.take_left' hfront]
    rw [readBytesPass, transferPass_of_pos _ _ hpos, loopTest, hconsumed, List.append_assoc,
      ← htake]
    split_ifs with hmore
    · exact ⟨hmore, rfl⟩
    · dsimp only
      rw [if_pos rfl, List.take_of_length_le]
      rw [Bytes.length_toList]
      omega

/-- A `read` keeps the invariant: what is read leaves the bytes in flight at the front. -/
theorem Inv.readStep {rb : Int} (h : s.Inv) (hstep : s.readStep rb = some s') : s'.Inv := by
  obtain ⟨hmessages, hstream, pre, hcall, hsound⟩ := h
  have hcall' := hcall.readStep hstep
  obtain ⟨buf, readBytes, -, -, -, rfl⟩ := readStep_cases hstep
  refine ⟨hmessages, ?_, pre, hcall', hsound.mono (List.append_nil _).symm rfl (le_refl _)⟩
  rw [hstream, List.append_assoc, List.take_append_drop]

/-- A message that is recognised has been written in full, behind those recognised before. -/
theorem Sound.heard {pre post : List UInt8} {m : FlooderMarker} (h : s.Sound pre)
    (hstream : stream letters s.written = pre ++ (letters m ++ post))
    (hwritten : s'.written = s.written) (hheard : s'.heard = s.heard ++ [m]) :
    s'.Sound (pre ++ letters m) := by
  obtain ⟨done, rest, hsplit, hlen, hsub⟩ := h
  obtain ⟨ws₁, n, ws₂, hfound, hpre, hfull⟩ := marked_letters.found hstream
  rw [length_letters] at hfull
  have hcut : (letters m).take n = letters m := by
    rw [List.take_of_length_le]
    rw [length_letters]
    exact hfull
  -- the messages recognised before are in front of this one
  have hdone : done <+: ws₁ := by
    have hboth : done <+: s.written ∧ ws₁ ++ [(m, n)] <+: s.written := by
      refine ⟨⟨rest, hsplit.symm⟩, ⟨ws₂, ?_⟩⟩
      rw [hfound, List.append_assoc]
      rfl
    rcases List.prefix_or_prefix_of_prefix hboth.1 hboth.2 with hle | hle
    · rcases List.prefix_concat_iff.mp hle with heq | hprefix
      · have hstreams := congrArg (fun ws => (stream letters ws).length) heq
        rw [stream_append, stream_cons, stream_nil, hcut, hpre, List.length_append,
          List.length_append, length_letters] at hstreams
        omega
      · exact hprefix
    · obtain ⟨t, rfl⟩ := hle
      rw [stream_append, stream_append, stream_cons, stream_nil, hcut, hpre, List.length_append,
        List.length_append, List.length_append, length_letters] at hlen
      omega
  obtain ⟨mid, rfl⟩ := hdone
  refine ⟨done ++ mid ++ [(m, n)], ws₂, ?_, ?_, ?_⟩
  · rw [hwritten, hfound, List.append_assoc _ [(m, n)]]
    rfl
  · rw [stream_append, hpre, stream_cons, stream_nil, hcut, List.append_nil]
  · rw [hheard, whole_append]
    refine List.Sublist.append ?_ ?_
    · rw [whole_append]
      exact hsub.trans (List.sublist_append_left _ _)
    · unfold whole
      rw [List.filter_cons_of_pos (by simpa using hfull)]
      exact List.Sublist.refl _

/-- The comparison keeps the invariant: the next call begins behind all bytes read so far, also
    where this one has failed. -/
theorem Inv.checkStep (h : s.Inv) (hstep : s.checkStep = some s') : s'.Inv := by
  obtain ⟨hmessages, hstream, pre, hcall, hsound⟩ := h
  obtain ⟨ret, buf, hreading, rfl⟩ := checkStep_cases hstep
  unfold Call at hcall
  rw [hreading] at hcall
  refine ⟨hmessages, hstream, s.consumed, ⟨by decide, (List.append_nil _).symm⟩, ?_⟩
  dsimp only at hcall
  split_ifs at hcall with hret
  · rw [if_pos hret]
    cases hmarker : flooderMarker buf with
    | none =>
      refine hsound.mono (List.append_nil _).symm (List.append_nil _) ?_
      rw [hcall, List.length_append]
      exact Nat.le_add_right _ _
    | some m =>
      obtain rfl := flooderMarker_eq_some.mp hmarker
      -- six bytes that are a message stand in the stream where one was written in full
      rw [hcall]
      have hfound : MarkedWords.stream letters s.written = pre ++ (letters m ++ s.pipe) := by
        rw [hstream, hcall, List.append_assoc]
        rfl
      exact hsound.heard hfound rfl rfl
  · rw [if_neg hret]
    -- a call that has failed is not looked at
    exact hsound.mono (List.append_nil _).symm (List.append_nil _) hcall.length_le

/-- **Step lemma.** -/
theorem inv_step : notifications.Invariant Inv := by
  intro s a s' h hstep
  cases a with
  | flooder r n => exact h.flooderStep hstep
  | read rb => exact h.readStep hstep
  | check => exact h.checkStep hstep

end Notifications

/-- **Soundness.**  However the writes are cut short, wherever the reads are cut or fail: the
    listener writes its markers for messages that the flooder has sent and that were written in
    full, each no more than once and in this order. -/
theorem notifications_sound (socks : FlooderSocks) (flooderType : Int32) (garbage : Bytes 6)
    (acts : List NotificationAct) (s : Notifications)
    (h : notifications.run acts (.start socks flooderType garbage) = some s) :
    s.written.map (fun w => w.1.message) = s.flooder.messages ∧
      s.heard.Sublist ((s.written.filter fun w => 6 ≤ w.2).map Prod.fst) := by
  have hinv := Notifications.inv_step.run (Notifications.inv_start socks flooderType garbage) h
  obtain ⟨pre, -, done, rest, hsplit, -, hsub⟩ := hinv.call
  refine ⟨hinv.messages, ?_⟩
  show s.heard.Sublist (whole s.written)
  rw [hsplit, whole_append]
  exact hsub.trans (List.sublist_append_left _ _)

/-- A flooder without a control sequence, in a cycle of which `write` takes `n` bytes of `START`
    and all six of `ENDIN`. -/
def noControlCycle (n : ℕ) : List NotificationAct :=
  [.flooder .done 0, .flooder .done 0, .flooder (.clock 1) 0, .flooder .done 0, .flooder .done n,
    .flooder (.clock 6) 0, .flooder .done 0, .flooder .done 0, .flooder (.clock 11) 0,
    .flooder .done 6]

/-- Where `START` is cut short, nothing is heard, though `ENDIN` arrives in full. -/
theorem notifications_sound_cut_short : ∃ s : Notifications,
    notifications.run (noControlCycle 4 ++ [.read 6, .check, .read 4])
        (.start ⟨8, 0, 5⟩ 0 (.zero 6)) = some s ∧ s.heard = [] ∧
      s.written.map (fun w => w.1.message) = s.flooder.messages ∧
      s.heard.Sublist ((s.written.filter fun w => 6 ≤ w.2).map Prod.fst) := by
  have hsome : ((notifications.run (noControlCycle 4 ++ [.read 6, .check, .read 4])
      (.start ⟨8, 0, 5⟩ 0 (.zero 6))).any fun s => decide (s.heard = [])) = true := by
    decide +kernel
  obtain ⟨s, hrun, hs⟩ := (Option.any_eq_true _ _).mp hsome
  exact ⟨s, hrun, of_decide_eq_true hs, notifications_sound _ _ _ _ _ hrun⟩

/-! ### Exactness -/

/-- The messages that are written in full at a multiple of six bytes, before the byte `limit`; `pos`
    is where the first one begins. -/
def recognised (limit : ℕ) : ℕ → List (FlooderMarker × ℕ) → List FlooderMarker
  | _, [] => []
  | pos, (m, n) :: ws =>
    (if 6 ∣ pos ∧ 6 ≤ n ∧ pos < limit then [m] else []) ++ recognised limit (pos + min n 6) ws

variable {limit limit' pos : ℕ} {ws : List (FlooderMarker × ℕ)}

/-- A message adds the bytes that `write` has taken of it. -/
theorem length_stream_cons (w : FlooderMarker × ℕ) (ws : List (FlooderMarker × ℕ)) :
    (stream letters (w :: ws)).length = min w.2 6 + (stream letters ws).length := by
  rw [stream_cons, List.length_append, List.length_take, length_letters]

/-- The messages of a second piece begin behind the bytes of the first one. -/
theorem recognised_append (limit pos : ℕ) (ws vs : List (FlooderMarker × ℕ)) :
    recognised limit pos (ws ++ vs)
      = recognised limit pos ws ++ recognised limit (pos + (stream letters ws).length) vs := by
  induction ws generalizing pos with
  | nil => rfl
  | cons w ws ih =>
    rw [length_stream_cons, List.cons_append, recognised, recognised, ih, List.append_assoc,
      Nat.add_assoc]

/-- Two limits recognise the same messages if none of those that are written in full at a multiple
    of six bytes begins between them. -/
theorem recognised_congr
    (h : ∀ ws₁ m n ws₂, ws = ws₁ ++ (m, n) :: ws₂ → 6 ∣ pos + (stream letters ws₁).length → 6 ≤ n →
      (pos + (stream letters ws₁).length < limit ↔ pos + (stream letters ws₁).length < limit')) :
    recognised limit pos ws = recognised limit' pos ws := by
  induction ws generalizing pos with
  | nil => rfl
  | cons w ws ih =>
    obtain ⟨m, n⟩ := w
    rw [recognised, recognised]
    congr 1
    · have hfirst := h [] m n ws rfl
      rw [stream_nil, List.length_nil, Nat.add_zero] at hfirst
      by_cases hm : 6 ∣ pos ∧ 6 ≤ n
      · simp only [hm.1, hm.2, true_and, hfirst hm.1 hm.2]
      · rw [if_neg fun hall => hm ⟨hall.1, hall.2.1⟩, if_neg fun hall => hm ⟨hall.1, hall.2.1⟩]
    · refine ih fun ws₁ m' n' ws₂ hsplit => ?_
      have hbehind := h ((m, n) :: ws₁) m' n' ws₂ (by rw [hsplit]; rfl)
      rw [length_stream_cons, ← Nat.add_assoc] at hbehind
      exact hbehind

/-- Behind the limit nothing is recognised. -/
theorem recognised_of_le (hle : limit ≤ pos) : recognised limit pos ws = [] := by
  induction ws generalizing pos with
  | nil => rfl
  | cons w ws ih =>
    rw [recognised, if_neg fun hall => Nat.not_lt.mpr hle hall.2.2, ih (Nat.le_add_right_of_le hle)]
    rfl

/-- Where all messages are written in full, they all begin at a multiple of six bytes, and all are
    recognised. -/
theorem recognised_of_whole (hpos : 6 ∣ pos) (hws : ∀ w ∈ ws, w.2 = 6)
    (hlimit : pos + (stream letters ws).length ≤ limit) :
    recognised limit pos ws = ws.map Prod.fst := by
  induction ws generalizing pos with
  | nil => rfl
  | cons w ws ih =>
    obtain ⟨m, n⟩ := w
    obtain rfl : n = 6 := hws (m, n) List.mem_cons_self
    rw [length_stream_cons] at hlimit
    rw [recognised, if_pos ⟨hpos, le_refl 6, by omega⟩, ih (by omega)
      (fun w hw => hws w (List.mem_cons_of_mem _ hw)) (by omega)]
    rfl

/-- No `read` fails. -/
def NotificationAct.Succeeds : NotificationAct → Prop
  | .read rb => 0 < rb
  | _ => True

namespace Notifications

variable {s s' : Notifications}

/-- The markers of the bytes `pre` are those of the messages written there, where no call has
    failed: then `pre` is read in calls of six bytes each. -/
structure Exact (s : Notifications) (pre : List UInt8) : Prop where
  call : s.Call pre
  returned : ∀ ret buf, s.reading = .returned ret buf → ret = 0
  aligned : 6 ∣ pre.length
  heard : s.heard = recognised pre.length 0 s.written

/-- What has been read in front of the call is a part of what has been read. -/
theorem Call.length_le {pre : List UInt8} (h : s.Call pre) : pre.length ≤ s.consumed.length := by
  unfold Call at h
  split at h
  case h_1 buf readBytes hreading =>
    rw [h.2, List.length_append]
    exact Nat.le_add_right _ _
  case h_2 ret buf hreading =>
    split_ifs at h with hret
    · rw [h, List.length_append]
      exact Nat.le_add_right _ _
    · exact h.length_le

/-- A call of the flooder writes behind what has been read, so no message in it is recognised
    yet. -/
theorem Exact.flooderStep {r : FlooderAction} {n : ℕ} {pre : List UInt8} (hinv : s.Inv)
    (h : s.Exact pre) (hstep : s.flooderStep r n = some s') : s'.Exact pre := by
  obtain ⟨hcall, hreturned, haligned, hheard⟩ := h
  obtain ⟨f, -, ⟨m, -, -, -, rfl⟩ | ⟨-, rfl⟩⟩ := flooderStep_cases hstep
  · refine ⟨hcall, hreturned, haligned, ?_⟩
    have hlen := congrArg List.length hinv.stream
    rw [List.length_append] at hlen
    have hle := hcall.length_le
    have hnew : recognised pre.length (0 + (stream letters s.written).length) [(m, n)] = [] :=
      recognised_of_le (by omega)
    show s.heard = recognised pre.length 0 (s.written ++ [(m, n)])
    rw [recognised_append, hnew, List.append_nil, hheard]
  · exact ⟨hcall, hreturned, haligned, hheard⟩

/-- A `read` that succeeds goes on with the message, or ends it; it does not fail the call. -/
theorem Exact.readStep {rb : Int} {pre : List UInt8} (h : s.Exact pre) (hrb : 0 < rb)
    (hstep : s.readStep rb = some s') : s'.Exact pre := by
  have hcall := h.call.readStep hstep
  obtain ⟨buf, readBytes, -, -, -, rfl⟩ := readStep_cases hstep
  refine ⟨hcall, ?_, h.aligned, h.heard⟩
  intro ret buf' hret
  dsimp only at hret
  rw [readBytesPass, transferPass_of_pos _ _ hrb, loopTest] at hret
  split_ifs at hret
  exact (CallState.returned.inj hret).1.symm

/-- Six bytes more have been read: the message that begins there, if there is one, is recognised,
    and no other. -/
theorem recognised_next {pre post : List UInt8} {buf : Bytes 6} (haligned : 6 ∣ pre.length)
    (hstream : stream letters ws = pre ++ (buf.toList ++ post)) :
    recognised (pre.length + 6) 0 ws
      = recognised pre.length 0 ws ++ (flooderMarker buf).toList := by
  cases hmarker : flooderMarker buf with
  | none =>
    rw [Option.toList_none, List.append_nil]
    refine recognised_congr fun ws₁ m n ws₂ hsplit hpos hfull => ?_
    rw [Nat.zero_add] at hpos ⊢
    refine ⟨fun hlt => ?_, fun hlt => by omega⟩
    by_contra hge
    -- a message that begins there would have been recognised
    have heq : (stream letters ws₁).length = pre.length := by omega
    have htake : (letters m).take n = letters m :=
      List.take_of_length_le (by rw [length_letters]; exact hfull)
    rw [hsplit, stream_append, stream_cons, htake] at hstream
    obtain ⟨-, hrest⟩ := List.append_inj hstream heq
    obtain ⟨hbuf, -⟩ := List.append_inj hrest (by rw [length_letters, buf.length_toList])
    rw [flooderMarker_eq_some.mpr (Bytes.ext hbuf.symm)] at hmarker
    cases hmarker
  | some m =>
    obtain rfl := flooderMarker_eq_some.mp hmarker
    -- the six bytes are those of one written message, and it begins at `pre`
    obtain ⟨ws₁, n, ws₂, rfl, hpre, hfull⟩ := marked_letters.found (i := m) hstream
    rw [length_letters] at hfull
    have hlen := congrArg List.length hpre
    -- in front of it, both limits are the same
    have hbefore : recognised (pre.length + 6) 0 ws₁ = recognised pre.length 0 ws₁ := by
      refine recognised_congr fun vs₁ m' n' vs₂ hsplit hpos hfull' => ?_
      rw [hsplit, stream_append, List.length_append, length_stream_cons] at hlen
      dsimp only at hlen
      omega
    -- behind this message, nothing lies in front of the limits
    have hnext : recognised (pre.length + 6) (pre.length + min n 6) ws₂ = [] :=
      recognised_of_le (by omega)
    have hlast : recognised pre.length (pre.length + min n 6) ws₂ = [] :=
      recognised_of_le (by omega)
    rw [recognised_append, recognised_append, hbefore, Nat.zero_add, hlen, recognised, recognised,
      if_pos ⟨haligned, hfull, by omega⟩, if_neg (by omega), hnext, hlast]
    simp

/-- The comparison takes up the message that has been read, and the next call begins behind it. -/
theorem Exact.checkStep {pre : List UInt8} (hinv : s.Inv) (h : s.Exact pre)
    (hstep : s.checkStep = some s') : s'.Exact s.consumed := by
  obtain ⟨hcall, hreturned, haligned, hheard⟩ := h
  obtain ⟨ret, buf, hreading, rfl⟩ := checkStep_cases hstep
  have hret := hreturned ret buf hreading
  unfold Call at hcall
  rw [hreading] at hcall
  dsimp only at hcall
  rw [if_pos hret] at hcall
  have hlen : s.consumed.length = pre.length + 6 := by
    rw [hcall, List.length_append, buf.length_toList]
  have hstream := hinv.stream
  rw [hcall, List.append_assoc] at hstream
  refine ⟨⟨by decide, (List.append_nil _).symm⟩, ?_, ?_, ?_⟩
  · intro ret' buf' hrunning
    cases hrunning
  · rw [hlen]
    omega
  · show s.heard ++ (if ret = 0 then _ else []) = recognised s.consumed.length 0 s.written
    rw [if_pos hret, hlen, recognised_next haligned hstream, hheard]

/-- **Step lemma.** -/
theorem exact_step : notifications.InvariantOn (fun _ a => a.Succeeds)
    (fun s => s.Inv ∧ ∃ pre, s.Exact pre) := by
  rintro s a s' ⟨hinv, pre, h⟩ hok hstep
  refine ⟨inv_step hinv hstep, ?_⟩
  cases a with
  | flooder r n => exact ⟨pre, h.flooderStep hinv hstep⟩
  | read rb => exact ⟨pre, h.readStep hok hstep⟩
  | check => exact ⟨s.consumed, h.checkStep hinv hstep⟩

end Notifications

/-- **Exactness.**  Where no read fails, the listener hears of the bytes it has read exactly the
    messages that were written in full at a multiple of six bytes: a message that is cut short hides
    those behind it until the bytes written are again a multiple of six.  If none is cut short, all
    are heard once they have been read. -/
theorem notifications_exact (socks : FlooderSocks) (flooderType : Int32) (garbage : Bytes 6)
    (acts : List NotificationAct) (hacts : ∀ a ∈ acts, a.Succeeds) (s : Notifications)
    (h : notifications.run acts (.start socks flooderType garbage) = some s) (buf : Bytes 6)
    (readBytes : ℕ) (hreading : s.reading = .running buf readBytes) :
    s.heard = recognised (6 * (s.consumed.length / 6)) 0 s.written ∧
      ((∀ w ∈ s.written, w.2 = 6) → s.pipe = [] → readBytes = 0 →
        s.heard = s.written.map Prod.fst) := by
  have hstart : (Notifications.start socks flooderType garbage).Inv ∧
      ∃ pre, (Notifications.start socks flooderType garbage).Exact pre := by
    refine ⟨Notifications.inv_start _ _ _, [], ⟨by decide, rfl⟩, ?_, Nat.dvd_zero 6, rfl⟩
    intro ret buf' hret
    cases hret
  obtain ⟨hinv, pre, hexact⟩ := Notifications.exact_step.run hstart
    (notifications.stepsMeet_of_forall hacts _) h
  have hcall := hexact.call
  have haligned := hexact.aligned
  unfold Notifications.Call at hcall
  rw [hreading] at hcall
  obtain ⟨hlt, hconsumed⟩ := hcall
  have hlen := congrArg List.length hconsumed
  rw [List.length_append, List.length_take, buf.length_toList] at hlen
  -- the call has less than six bytes, so `pre` is all whole messages of what has been read
  have hpre : 6 * (s.consumed.length / 6) = pre.length := by omega
  rw [hpre]
  refine ⟨hexact.heard, fun hwhole hpipe hzero => ?_⟩
  have hstream := congrArg List.length hinv.stream
  rw [hpipe, List.append_nil] at hstream
  rw [hexact.heard, recognised_of_whole (Nat.dvd_zero 6) hwhole (by omega)]

/-- A cycle of which both messages are written in full, and read in pieces of 4 bytes and less. -/
theorem notifications_exact_cycle : ∃ s : Notifications,
    notifications.run (noControlCycle 6 ++
        [.read 4, .read 2, .check, .read 4, .read 1, .read 1, .check])
        (.start ⟨8, 0, 5⟩ 0 (.zero 6)) = some s ∧ s.heard = [.flooderStart, .flooderEnd] := by
  have hsome : ((notifications.run (noControlCycle 6 ++
      [.read 4, .read 2, .check, .read 4, .read 1, .read 1, .check])
      (.start ⟨8, 0, 5⟩ 0 (.zero 6))).any fun s =>
      decide (s.reading = .running clientEnd 0 ∧ s.pipe = [] ∧
        s.written = [(.flooderStart, 6), (.flooderEnd, 6)])) = true := by
    decide +kernel
  obtain ⟨s, hrun, hs⟩ := (Option.any_eq_true _ _).mp hsome
  obtain ⟨hreading, hpipe, hwritten⟩ := of_decide_eq_true hs
  have hheard := (notifications_exact _ _ _ _ (by
    simp [noControlCycle, NotificationAct.Succeeds]) s hrun clientEnd 0 hreading).2
  refine ⟨s, hrun, ?_⟩
  rw [hheard (by simp [hwritten]) hpipe rfl, hwritten]
  rfl

end NetworkExperiment
