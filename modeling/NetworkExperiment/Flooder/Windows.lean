import NetworkExperiment.Flooder.Run
import NetworkExperiment.Lib.LastEvent

namespace NetworkExperiment

open ActionSystems ByteBuffers LastEvents

/-!
# The flooder's windows

A window is open from a `START` to the next `ENDIN`:

* `Flooder.InWindow` / `Flooder.ControlDue` — what a datagram, and what `CONTRO`, asks of the events
  in front of it;
* `Flooder.Kept` — all datagrams and `CONTRO`s so far are such;
* `Flooder.At` — how far the current cycle has come, by the call that the loop is in front of;
* `flooder_windows` — the messages are cycles, and nothing is sent outside the windows or after
  `CONTRO`.
-/

/-- A message that opens or closes a window: what the client waits for at the ends of a cycle. -/
def FlooderEvent.IsWindow (e : FlooderEvent) : Prop :=
  e = .notify clientStart ∨ e = .notify clientEnd

instance : DecidablePred FlooderEvent.IsWindow := fun _ => inferInstanceAs (Decidable (_ ∨ _))

/-- A datagram. -/
def FlooderEvent.IsDatagram : FlooderEvent → Prop
  | .datagram _ => True
  | _ => False

instance : DecidablePred FlooderEvent.IsDatagram
  | .clock _ | .notify _ => .isFalse not_false
  | .datagram _ => .isTrue trivial

namespace Flooder

variable {f f' : Flooder} {e : FlooderEvent} {past : List FlooderEvent} {sec : ℤ} {p : Pause}

/-! ### What the past must be -/

/-- The last `START` or `ENDIN` is a `START`, whatever else has happened since. -/
def InWindow (past : List FlooderEvent) : Prop :=
  lastOf FlooderEvent.IsWindow past = some (.notify clientStart)

/-- Behind the last `START`, the clock has been read at least 60 seconds after its first reading,
    and no message has followed. -/
def ControlDue (past : List FlooderEvent) : Prop :=
  ∃ before between startTime sec,
    past = before ++ .notify clientStart :: .clock sec :: between ∧
    between.filterMap FlooderEvent.message = [] ∧
    (past.filterMap FlooderEvent.reading).head? = some startTime ∧ 60 ≤ sec - startTime

/-- Every datagram and every `CONTRO` so far was right.  `notified_control` is set with the one
    `CONTRO` there is, and only where control is asked for. -/
structure Kept (f : Flooder) : Prop where
  control : ∀ x ∈ occurrences (· = .notify clientControl) f.trace,
    f.socks.withControl ≠ 0 ∧ ControlDue x.1
  datagram : ∀ x ∈ occurrences FlooderEvent.IsDatagram f.trace,
    InWindow x.1 ∧ .notify clientControl ∉ x.1 ∧ f.flooderNoFlood = false
  count : f.messages.count clientControl = if f.notifiedControl then 1 else 0
  notified : f.notifiedControl = true → f.socks.withControl ≠ 0

/-! ### Where the cycle is -/

/-- The first reading of the clock is `start_time`, from which the 60 seconds are counted. -/
def Started (f : Flooder) : Prop :=
  (f.trace.filterMap FlooderEvent.reading).head? = some f.startTime

/-- Complete cycles have been announced. -/
def Between (f : Flooder) : Prop := ∃ cs : List Bool, f.messages = cs.flatMap cycle

/-- A window has been opened, and nothing else announced since. -/
def Opened (f : Flooder) : Prop :=
  InWindow f.trace ∧ ∃ cs : List Bool, f.messages = cs.flatMap cycle ++ [clientStart]

/-- A window is open, and `CONTRO` may have been announced in it.  `c` says whether this is the
    cycle with the `CONTRO`. -/
def Inside (f : Flooder) : Prop :=
  InWindow f.trace ∧ ∃ (cs : List Bool) (c : Bool),
    f.messages = cs.flatMap cycle ++ clientStart :: if c then [clientControl] else []

/-- The cycle, by what a pause comes before. -/
def AtPause (f : Flooder) : Pause → Prop
  | .beforeStart => f.Started ∧ f.Between
  | .beforeEnd => f.Started ∧ f.Inside

/-- The cycle, by the call that the loop is in front of.  Towards the `CONTRO` it becomes more
    exact: the `START` and the reading behind it are the last two events, and then the test has
    been passed. -/
def At (f : Flooder) : FlooderPc → Prop
  | .openRandom | .readRandom | .clockStart | .returned _ => f.trace = []
  | .sleep p | .spinStart p | .spinLoop p _ => f.AtPause p
  | .notifyStart => f.AtPause .beforeStart
  | .clockWindow =>
      f.Started ∧ f.Opened ∧ ∃ before, f.trace = before ++ [.notify clientStart]
  | .logStart =>
      f.Started ∧ f.Opened ∧
        ∃ before, f.trace = before ++ [.notify clientStart, .clock f.currenttime]
  | .notifyControl =>
      f.Started ∧ f.Opened ∧
        (∃ before, f.trace = before ++ [.notify clientStart, .clock f.currenttime]) ∧
        f.socks.withControl ≠ 0 ∧ 60 ≤ f.currenttime - f.startTime ∧ f.notifiedControl = false
  | .sendDatagram | .clockDatagram =>
      f.AtPause .beforeEnd ∧ f.notifiedControl = false ∧ f.flooderNoFlood = false
  | .notifyEnd => f.AtPause .beforeEnd

/-! ### Events -/

/-- An event adds its message, if it has one. -/
theorem messages_emit (f : Flooder) (e : FlooderEvent) :
    (f.emit e).messages = f.messages ++ e.message.toList := by
  unfold messages emit
  rw [List.filterMap_append]
  cases e <;> rfl

/-- Without a `CONTRO` announced there is none in the trace. -/
theorem Kept.not_mem (h : f.Kept) (hno : f.notifiedControl = false) :
    .notify clientControl ∉ f.trace := by
  have hcount := h.count
  rw [hno] at hcount
  intro hmem
  apply List.count_eq_zero.mp hcount
  exact List.mem_filterMap.mpr ⟨_, hmem, rfl⟩

/-- Events of other kinds ask nothing of the past: the occurrences of a datagram and of `CONTRO`
    are the same. -/
theorem Kept.emit (h : f.Kept) (hcontrol : e ≠ .notify clientControl) (hdatagram : ¬ e.IsDatagram) :
    (f.emit e).Kept where
  control := forall_occurrences_concat.mpr ⟨h.control, fun he => absurd he hcontrol⟩
  datagram := forall_occurrences_concat.mpr ⟨h.datagram, fun he => absurd he hdatagram⟩
  count := by
    rw [messages_emit, List.count_append, h.count, List.count_eq_zero.mpr]
    · rfl
    · -- only a message can be a `CONTRO`, and this one is another
      intro hmem
      apply hcontrol
      cases e with
      | notify msg => rw [List.mem_singleton.mp hmem]
      | clock sec => exact absurd hmem List.not_mem_nil
      | datagram sent => exact absurd hmem List.not_mem_nil
  notified := h.notified

/-- A datagram is sent in a window, before `CONTRO` has been announced. -/
theorem Kept.emit_datagram (h : f.Kept) (hwindow : InWindow f.trace)
    (hno : f.notifiedControl = false) (hflood : f.flooderNoFlood = false) (sent : Bool) :
    (f.emit (.datagram sent)).Kept where
  control := forall_occurrences_concat.mpr ⟨h.control, fun he => absurd he (by simp)⟩
  datagram :=
    forall_occurrences_concat.mpr ⟨h.datagram, fun _ => ⟨hwindow, h.not_mem hno, hflood⟩⟩
  count := by
    rw [messages_emit]
    exact (congrArg _ (List.append_nil _)).trans h.count
  notified := h.notified

/-- `CONTRO` is announced once, when it is due: `notified_control` was not set, so none has gone
    before. -/
theorem Kept.emit_control (h : f.Kept) (hdue : ControlDue f.trace)
    (hwith : f.socks.withControl ≠ 0) (hno : f.notifiedControl = false) :
    { f.emit (.notify clientControl) with notifiedControl := true }.Kept where
  control := forall_occurrences_concat.mpr ⟨h.control, fun _ => ⟨hwith, hdue⟩⟩
  datagram := forall_occurrences_concat.mpr ⟨h.datagram, fun he => absurd he not_false⟩
  count := by
    have hcount := h.count
    rw [hno] at hcount
    show (f.emit (.notify clientControl)).messages.count _ = 1
    rw [messages_emit, List.count_append, hcount]
    rfl
  notified _ := hwith

/-- The start time stays the first reading. -/
theorem Started.emit (h : f.Started) (e : FlooderEvent) : (f.emit e).Started := by
  unfold Started at *
  show ((f.trace ++ [e]).filterMap _).head? = some f.startTime
  rw [List.filterMap_append, List.head?_append, h]
  rfl

/-- A window stays open behind what is neither a `START` nor an `ENDIN`. -/
theorem InWindow.concat (h : InWindow past) (he : ¬ e.IsWindow) : InWindow (past ++ [e]) := by
  unfold InWindow
  rwa [lastOf_concat_neg _ he]

/-- A reading or a datagram leaves the window as it is. -/
theorem Inside.emit (h : f.Inside) (he : e.message = none) : (f.emit e).Inside := by
  obtain ⟨hwindow, cs, c, hmessages⟩ := h
  refine ⟨hwindow.concat ?_, cs, c, ?_⟩
  · rintro (rfl | rfl) <;> exact absurd he (by simp [FlooderEvent.message])
  · rw [messages_emit, he, hmessages]
    exact List.append_nil _

/-- So does it leave the announced cycles. -/
theorem AtPause.emit (h : f.AtPause p) (he : e.message = none) : (f.emit e).AtPause p := by
  cases p with
  | beforeStart =>
    obtain ⟨hstarted, cs, hmessages⟩ := h
    refine ⟨hstarted.emit e, cs, ?_⟩
    rw [messages_emit, he, hmessages]
    exact List.append_nil _
  | beforeEnd => exact ⟨h.1.emit e, h.2.emit he⟩

/-- A window in which nothing has been announced is one without `CONTRO`. -/
theorem Opened.inside (h : f.Opened) : f.Inside := by
  obtain ⟨hwindow, cs, hmessages⟩ := h
  exact ⟨hwindow, cs, false, hmessages⟩

/-! ### Tests -/

/-- A pause begins with a `sleep`, or is left out; the cycle has not moved. -/
theorem at_pausePc (h : f.AtPause p) : f.At (f.pausePc p) := by
  unfold pausePc
  split <;> exact h

/-- Behind a pause comes the message that it is a pause before. -/
theorem at_resumePc (h : f.AtPause p) : f.At (resumePc p) := by
  cases p <;> exact h

/-- So does the waiting loop go on, or end. -/
theorem at_spinPc (h : f.AtPause p) (till currenttime : ℤ) : f.At (spinPc p till currenttime) := by
  unfold spinPc
  split
  · exact h
  · exact at_resumePc h

/-- The loop sends another datagram, or the window is closed. -/
theorem at_floodPc (h : f.AtPause .beforeEnd) (hno : f.notifiedControl = false)
    (hflood : f.flooderNoFlood = false) : f.At f.floodPc := by
  unfold floodPc
  split
  · exact ⟨h, hno, hflood⟩
  · exact h

/-- In the window it is flooded only without `CONTRO` and without `flooder_no_flood`. -/
theorem at_windowPc (hkept : f.Kept) (h : f.AtPause .beforeEnd) : f.At f.windowPc := by
  unfold windowPc
  by_cases hpause : f.socks.withControl ≠ 0 ∧ f.notifiedControl
  · rw [if_pos hpause]
    exact at_pausePc h
  · rw [if_neg hpause]
    -- with `CONTRO` announced, `with_control` is set and the branch is the other one
    have hno : f.notifiedControl = false := by
      by_contra hset
      rw [Bool.not_eq_false] at hset
      exact hpause ⟨hkept.notified hset, hset⟩
    split
    · exact h
    · rename_i hflood
      exact at_floodPc h hno (Bool.eq_false_iff.mpr hflood)

/-- Control starts when it is due: the test has just been made on the reading behind the
    `START`. -/
theorem at_controlPc (hkept : f.Kept) (h : f.At .logStart) : f.At f.controlPc := by
  obtain ⟨hstarted, hopened, hread⟩ := h
  unfold controlPc
  by_cases hdue : f.socks.withControl ≠ 0 ∧ f.currenttime - f.startTime ≥ 60 ∧ !f.notifiedControl
  · rw [if_pos hdue]
    obtain ⟨hwith, htime, hno⟩ := hdue
    exact ⟨hstarted, hopened, hread, hwith, htime, by simpa using hno⟩
  · rw [if_neg hdue]
    exact at_windowPc hkept ⟨hstarted, hopened.inside⟩

/-! ### Steps -/

/-- What a run keeps: everything so far was right, and the cycle has come as far as the call
    says. -/
structure Sound (f : Flooder) : Prop where
  kept : f.Kept
  cycle : f.At f.pc

/-- The places and the times say nothing of the past, so that a step may change them. -/
theorem Kept.forget (h : f.Kept) (pc : FlooderPc) (startTime clocktime currenttime : ℤ)
    (sendBytes sentBytes : ℤ) (exited : Bool) :
    { f with
      pc := pc, startTime := startTime, clocktime := clocktime, currenttime := currenttime
      sendBytes := sendBytes, sentBytes := sentBytes, exited := exited }.Kept :=
  ⟨h.control, h.datagram, h.count, h.notified⟩

/-- What the cycle is at a call does not depend on the call that comes next, or on the bytes. -/
theorem At.forget {q : FlooderPc} (h : f.At q) (pc : FlooderPc) (clocktime sendBytes sentBytes : ℤ)
    (exited : Bool) :
    { f with
      pc := pc, clocktime := clocktime, sendBytes := sendBytes, sentBytes := sentBytes
      exited := exited }.At q := by
  cases q with
  | sleep p | spinStart p | spinLoop p _ => cases p <;> exact h
  | openRandom | readRandom | clockStart | notifyStart | clockWindow => exact h
  | logStart | notifyControl | sendDatagram | clockDatagram | notifyEnd | returned _ => exact h

/-- A `START` opens a window. -/
theorem opened_emit (h : f.AtPause .beforeStart) : (f.emit (.notify clientStart)).Opened := by
  obtain ⟨-, cs, hmessages⟩ := h
  refine ⟨?_, cs, ?_⟩
  · exact lastOf_concat_pos _ (.inl rfl)
  · rw [messages_emit, hmessages]
    rfl

/-- A `CONTRO` leaves it open. -/
theorem inside_emit (h : f.Opened) : (f.emit (.notify clientControl)).Inside := by
  obtain ⟨hwindow, cs, hmessages⟩ := h
  refine ⟨hwindow.concat (by decide), cs, true, ?_⟩
  rw [messages_emit, hmessages, List.append_assoc]
  rfl

/-- An `ENDIN` closes it. -/
theorem between_emit (h : f.Inside) : (f.emit (.notify clientEnd)).Between := by
  obtain ⟨-, cs, c, hmessages⟩ := h
  refine ⟨cs ++ [c], ?_⟩
  rw [messages_emit, hmessages, List.flatMap_append, List.flatMap_singleton, List.append_assoc]
  rfl

/-- A reading of the clock right behind the `START`. -/
theorem Opened.emit_clock (h : f.Opened) (sec : ℤ) : (f.emit (.clock sec)).Opened := by
  obtain ⟨hwindow, cs, hmessages⟩ := h
  refine ⟨hwindow.concat (by simp [FlooderEvent.IsWindow]), cs, ?_⟩
  rw [messages_emit, hmessages]
  exact List.append_nil _

/-- A datagram leaves the window as it is. -/
theorem at_clockDatagram (h : f.At .sendDatagram) (sent : Bool) :
    (f.emit (.datagram sent)).At .clockDatagram :=
  ⟨h.1.emit rfl, h.2⟩

/-- A call keeps the discipline.  The cases are those of `callStep`; each says what the event adds,
    and that the call in front of which the loop then stands is one for this state of the cycle. -/
theorem sound_callStep {r : FlooderAction} (h : f.Sound) (hstep : f.callStep r = some f') :
    f'.Sound := by
  obtain ⟨hkept, hat⟩ := h
  have hclock : ∀ sec, (f.emit (.clock sec)).Kept :=
    fun sec => hkept.emit (by simp) not_false
  unfold callStep at hstep
  split at hstep
  case h_17 =>
    -- `flooder_shutdown` has been read: nothing else changes
    obtain rfl := Option.some.inj hstep
    exact ⟨hkept.forget .., hat.forget ..⟩
  case h_18 => exact absurd hstep (by simp)
  all_goals
    rename_i hpc
    obtain rfl := Option.some.inj hstep
    rw [hpc] at hat
  -- `/dev/urandom`: no event
  case h_1 | h_2 | h_3 | h_4 => exact ⟨hkept.forget .., hat.forget ..⟩
  case h_5 sec =>
    -- the first reading is the start time
    have hempty : f.trace = [] := hat
    have hstart : { f.emit (.clock sec) with startTime := sec }.AtPause .beforeStart := by
      refine ⟨?_, [], ?_⟩
      · show ((f.trace ++ [_]).filterMap _).head? = some sec
        rw [hempty]
        rfl
      · show (f.trace ++ [_]).filterMap _ = []
        rw [hempty]
        rfl
    exact ⟨(hclock sec).forget .., (at_pausePc hstart).forget ..⟩
  -- the pauses read the clock at most
  case h_6 p => exact ⟨hkept.forget .., (at_resumePc hat).forget ..⟩
  case h_7 p sec => exact ⟨(hclock sec).forget .., (at_spinPc (hat.emit rfl) _ _).forget ..⟩
  case h_8 p till sec => exact ⟨(hclock sec).forget .., (at_spinPc (hat.emit rfl) _ _).forget ..⟩
  case h_9 =>
    -- `START` opens the window
    have hopen : (f.emit (.notify clientStart)).At .clockWindow :=
      ⟨hat.1.emit _, opened_emit hat, f.trace, rfl⟩
    have hkept' := hkept.emit (e := .notify clientStart) (by decide) not_false
    exact ⟨hkept'.forget .., hopen.forget ..⟩
  case h_10 sec =>
    -- the reading behind it, which the test for control is about to use
    obtain ⟨hstarted, hopened, before, hbefore⟩ := hat
    have hread : { f.emit (.clock sec) with currenttime := sec }.At .logStart := by
      refine ⟨hstarted.emit _, hopened.emit_clock sec, before, ?_⟩
      show f.trace ++ [_] = _
      rw [hbefore, List.append_assoc]
      rfl
    exact ⟨(hclock sec).forget .., hread.forget ..⟩
  case h_11 =>
    have hkept' : { f with sendBytes := 0, sentBytes := 0 }.Kept := hkept.forget ..
    have hat' : { f with sendBytes := 0, sentBytes := 0 }.At .logStart := hat.forget ..
    exact ⟨hkept'.forget .., (at_controlPc hkept' hat').forget ..⟩
  case h_12 =>
    -- `CONTRO`: nothing has come between the `START` and its reading
    obtain ⟨hstarted, hopened, ⟨before, hbefore⟩, hwith, hdue, hno⟩ := hat
    have hcontrol : ControlDue f.trace :=
      ⟨before, [], f.startTime, f.currenttime, hbefore, rfl, hstarted, hdue⟩
    have hkept' := hkept.emit_control hcontrol hwith hno
    have hinside : { f.emit (.notify clientControl) with notifiedControl := true }.AtPause
        .beforeEnd := ⟨hstarted.emit _, inside_emit hopened⟩
    exact ⟨hkept'.forget .., (at_windowPc hkept' hinside).forget ..⟩
  case h_13 | h_14 =>
    -- a datagram, whether `write` takes it or not
    have hkept' := hkept.emit_datagram hat.1.2.1 hat.2.1 hat.2.2
    exact ⟨(hkept' _).forget .., (at_clockDatagram hat _).forget ..⟩
  case h_15 sec =>
    -- the reading that ends the loop or not
    obtain ⟨hinside, hno, hflood⟩ := hat
    have hinside' : { f.emit (.clock sec) with currenttime := sec }.AtPause .beforeEnd :=
      hinside.emit rfl
    exact ⟨(hclock sec).forget .., (at_floodPc hinside' hno hflood).forget ..⟩
  case h_16 =>
    -- `ENDIN` closes the window
    have hclosed : (f.emit (.notify clientEnd)).AtPause .beforeStart :=
      ⟨hat.1.emit _, between_emit hat.2⟩
    have hkept' := hkept.emit (e := .notify clientEnd) (by decide) not_false
    exact ⟨hkept'.forget .., (at_pausePc hclosed).forget ..⟩

/-- Every call keeps the discipline, and a flooder that has left makes none. -/
theorem sound_invariant : flooderRun.Invariant Sound := by
  intro f r f' h hstep
  unfold flooderRun at hstep
  dsimp only at hstep
  split at hstep
  · exact absurd hstep (by simp)
  · exact sound_callStep h hstep

/-- At the beginning nothing has been sent. -/
theorem sound_start (socks : FlooderSocks) (flooderType : Int32) :
    (start socks flooderType).Sound where
  kept :=
    { control := fun _ hx => absurd hx List.not_mem_nil
      datagram := fun _ hx => absurd hx List.not_mem_nil
      count := rfl
      notified := fun hset => absurd hset (by simp [start]) }
  cycle := rfl

/-- The settings do not change. -/
theorem callStep_settings {r : FlooderAction} (hstep : f.callStep r = some f') :
    f'.socks = f.socks ∧ f'.flooderNoFlood = f.flooderNoFlood := by
  unfold callStep at hstep
  split at hstep
  case h_18 => exact absurd hstep (by simp)
  all_goals
    obtain rfl := Option.some.inj hstep
    exact ⟨rfl, rfl⟩

/-- Nor do they in a run. -/
theorem run_settings {as : List FlooderAction} (hrun : flooderRun.run as f = some f') :
    f'.socks = f.socks ∧ f'.flooderNoFlood = f.flooderNoFlood := by
  have hinvariant : flooderRun.Invariant
      fun g => g.socks = f.socks ∧ g.flooderNoFlood = f.flooderNoFlood := by
    intro g r g' h hstep
    unfold flooderRun at hstep
    dsimp only at hstep
    split at hstep
    · exact absurd hstep (by simp)
    · obtain ⟨hsocks, hflood⟩ := callStep_settings hstep
      exact ⟨hsocks.trans h.1, hflood.trans h.2⟩
  exact hinvariant.run ⟨rfl, rfl⟩ hrun

/-! ### Cycles -/

/-- The messages are the beginning of a sequence of cycles. -/
def Cycles (f : Flooder) : Prop := ∃ cs : List Bool, f.messages <+: cs.flatMap cycle

/-- An open window is the beginning of one more cycle. -/
theorem Inside.cycles (h : f.Inside) : f.Cycles := by
  obtain ⟨-, cs, c, hmessages⟩ := h
  refine ⟨cs ++ [c], ?_⟩
  rw [hmessages, List.flatMap_append, List.flatMap_singleton, List.prefix_append_right_inj]
  exact ⟨[clientEnd], rfl⟩

theorem AtPause.cycles (h : f.AtPause p) : f.Cycles := by
  cases p with
  | beforeStart =>
    obtain ⟨-, cs, hmessages⟩ := h
    exact ⟨cs, hmessages ▸ List.prefix_refl _⟩
  | beforeEnd => exact h.2.cycles

/-- At every call the messages are cycles and the beginning of one. -/
theorem At.cycles {pc : FlooderPc} (h : f.At pc) : f.Cycles := by
  cases pc with
  | openRandom | readRandom | clockStart | returned ret =>
    have hempty : f.trace = [] := h
    refine ⟨[], ?_⟩
    unfold messages
    rw [hempty]
    exact List.prefix_refl _
  | sleep p | spinStart p | spinLoop p till => exact AtPause.cycles h
  | notifyStart => exact AtPause.cycles (p := .beforeStart) h
  | notifyEnd => exact AtPause.cycles (p := .beforeEnd) h
  | clockWindow => exact h.2.1.inside.cycles
  | logStart => exact h.2.1.inside.cycles
  | notifyControl => exact h.2.1.inside.cycles
  | sendDatagram => exact h.1.cycles
  | clockDatagram => exact h.1.cycles

end Flooder

open Flooder

/-- **The flooder's windows.**  In every run the messages are the beginning of a sequence of cycles;
    `CONTRO` is announced at most once, with control and at least 60 seconds after the start time;
    and every datagram is sent in a window that is open, never after `CONTRO` and never with
    `flooder_no_flood`. -/
theorem flooder_windows (socks : FlooderSocks) (flooderType : Int32) (as : List FlooderAction)
    {f : Flooder} (hrun : flooderRun.run as (.start socks flooderType) = some f) :
    (∃ cs : List Bool, f.messages <+: cs.flatMap cycle) ∧
    f.messages.count clientControl ≤ 1 ∧
    (∀ x ∈ occurrences (· = .notify clientControl) f.trace,
      socks.withControl ≠ 0 ∧ ControlDue x.1) ∧
    (∀ x ∈ occurrences FlooderEvent.IsDatagram f.trace,
      InWindow x.1 ∧ .notify clientControl ∉ x.1 ∧ flooderType ≠ -1) := by
  have hsound : f.Sound := sound_invariant.run (sound_start socks flooderType) hrun
  obtain ⟨hsocks, hflood⟩ := run_settings hrun
  refine ⟨hsound.cycle.cycles, ?_, ?_, ?_⟩
  · -- 1 or 0, by `notified_control`
    rw [hsound.kept.count]
    split <;> decide
  · rw [← show f.socks = socks from hsocks]
    exact hsound.kept.control
  · intro x hx
    obtain ⟨hwindow, hno, hfloods⟩ := hsound.kept.datagram x hx
    refine ⟨hwindow, hno, ?_⟩
    rw [hflood] at hfloods
    exact of_decide_eq_false hfloods

/-- The calls of two cycles, the second one a minute later. -/
def twoCycles : List FlooderAction :=
  [.done, .done, .clock 100, .done, .done, .clock 105, .done, .done, .clock 108, .failed,
    .clock 110, .done, .done, .done, .clock 161, .done, .done, .done, .done]

/-- Two datagrams in the first cycle, and `CONTRO` in the second. -/
theorem flooder_windows_two_cycles : ∃ f,
    flooderRun.run twoCycles (.start ⟨3400, 1, 5⟩ 1) = some f ∧
    f.messages = [clientStart, clientEnd, clientStart, clientControl, clientEnd] ∧
    (occurrences FlooderEvent.IsDatagram f.trace).length = 2 ∧
    ∀ x ∈ occurrences FlooderEvent.IsDatagram f.trace,
      InWindow x.1 ∧ .notify clientControl ∉ x.1 ∧ (1 : Int32) ≠ -1 := by
  refine ⟨_, rfl, rfl, rfl, ?_⟩
  exact (flooder_windows ⟨3400, 1, 5⟩ 1 twoCycles rfl).2.2.2

end NetworkExperiment
