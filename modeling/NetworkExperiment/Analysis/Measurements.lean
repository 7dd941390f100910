import NetworkExperiment.Analysis.Partition
import NetworkExperiment.Analysis.RequestCounter

namespace NetworkExperiment

open ActionSystems ByteBuffers DescriptorTables FloatRounding LastEvents

/-!
# From the clock to the samples

The client times each message of the server, and the parser reads the times out of the log that the
main thread and the listener write together, over any number of connections:

* `Reading` — the readings of the clock that `log_request_start` and `log_request_end` take;
* `timedClient` — the client with a record of the times of its messages;
* `TimedClient.Logged` — the log tells the record, and every time in it has been read;
* `samples_are_timings` — the samples of the parser are the times of the messages, up to the
  rounding of Python's floats, whose 53 digits are fewer than those of a time in nanoseconds;
* `TimedClient.Logged.error` — how much this rounding changes.
-/

/-! ### The times of the messages -/

/-- A reading of the clock. -/
inductive Reading
  | start (nsec : ℤ)
  | stop (nsec : ℤ)
deriving DecidableEq, Repr

/-- The reading that a call of the main thread takes; the clock is read in two of its calls. -/
def MainThread.reading : MainThread → CallResult → Option Reading
  | .request _ thread, .clock nsec =>
      match thread.pc with
      | .logStart => some (.start nsec)
      | .logEnd _ => some (.stop nsec)
      | _ => none
  | _, _ => none

/-- The client, the first reading in front of a message, the last one, and the two readings of each
    message that has been answered. -/
structure TimedClient where
  process : ClientProcess
  first : Option ℤ
  started : ℤ
  timings : List (ℤ × ℤ)

namespace TimedClient

/-- What a reading adds to the record: one in front of a message is kept until the message is
    there, one behind it ends the message. -/
def record (s : TimedClient) : Option Reading → TimedClient
  | some (.start nsec) => { s with first := some (s.first.getD nsec), started := nsec }
  | some (.stop nsec) => { s with timings := s.timings ++ [(s.started, nsec)] }
  | none => s

/-- The reading that a step takes. -/
def reading (s : TimedClient) : ClientAction → Option Reading
  | .main r => s.process.main.reading r
  | _ => none

/-- The client as `main` calls `client_run`. -/
def start (withLogFile : Bool) : TimedClient := ⟨.start withLogFile, none, 0, []⟩

/-- When a message was waited for, in seconds from the first one on, and how long it took, where
    each number and each result is rounded. -/
def sample (fl : ℚ → ℚ) (s : TimedClient) (t : ℤ × ℤ) : Datapt :=
  (fl (fl (fl t.1 - fl (s.first.getD 0 : ℤ)) / 10 ^ 9), fl (fl t.2 - fl t.1))

end TimedClient

/-- The runs of the client, with the record.  The client is as it was: the record is kept beside
    it. -/
def timedClient : ActionSystem TimedClient ClientAction where
  act s a := (clientProcess.act s.process a).map fun p =>
    { s.record (s.reading a) with process := p }

/-- The record does not take part in the runs, and every run has its record. -/
theorem map_timedClient_run (as : List ClientAction) (s : TimedClient) :
    (timedClient.run as s).map TimedClient.process = clientProcess.run as s.process := by
  apply ActionSystem.map_run_of_map_act
  intro s a
  show ((clientProcess.act s.process a).map _).map _ = _
  rw [Option.map_map]
  exact congrFun Option.map_id _

/-! ### The times on the lines -/

/-- The number on a line of the main thread. -/
def LogLine.nsec : LogLine → ℤ
  | .requestStart nsec | .requestEnd nsec => nsec
  | .flooder _ => 0

/-- The line that a reading is written to. -/
def Reading.line : Reading → LogLine
  | .start nsec => .requestStart nsec
  | .stop nsec => .requestEnd nsec

/-- The numbers on an `END` line and on the last `START` line in front of it. -/
def lineTiming (x : List LogLine × LogLine) : ℤ × ℤ :=
  (((lastOf LogLine.IsRequestStart x.1).map LogLine.nsec).getD 0, x.2.nsec)

variable {fl : ℚ → ℚ} {log past : List LogLine} {line : LogLine}

/-- A line of a word and a number, as the parser reads it. -/
theorem timeOf_line {w : List Char} (hw : ∀ a ∈ w, isspace a = false) (hne : w ≠ []) (nsec : ℤ) :
    timeOf fl (w ++ ' ' :: (ld nsec ++ ['\n'])) = fl nsec := by
  apply timeOf_eq
  unfold number
  rw [split_two_words hw hne (isspace_ld nsec) (ld_ne_nil nsec)]
  exact decimal_ld nsec

/-- The parser reads the number that was written, on a `START` line and on an `END` line. -/
theorem timeOf_text (h : line.IsRequestStart ∨ line.IsRequestEnd) :
    timeOf fl line.text = fl line.nsec := by
  have hstart : "START: ".toList = "START:".toList ++ [' '] := by decide
  have hend : "END: ".toList = "END:".toList ++ [' '] := by decide
  cases line with
  | requestStart nsec =>
    show timeOf fl ("START: ".toList ++ (ld nsec ++ ['\n'])) = _
    -- the blank of the format ends the word
    rw [hstart, List.append_assoc]
    exact timeOf_line (by simp [isspace]) (by decide) nsec
  | requestEnd nsec =>
    show timeOf fl ("END: ".toList ++ (ld nsec ++ ['\n'])) = _
    rw [hend, List.append_assoc]
    exact timeOf_line (by simp [isspace]) (by decide) nsec
  | flooder marker => exact absurd h (by simp [LogLine.IsRequestStart, LogLine.IsRequestEnd])

/-- The last `START` line, as the parser reads it; without one both are 0, which stays 0 when it is
    rounded. -/
theorem startTime_text (hzero : fl 0 = 0) (past : List LogLine) :
    startTime fl (past.map LogLine.text)
      = fl (((lastOf LogLine.IsRequestStart past).map LogLine.nsec).getD 0 : ℤ) := by
  unfold startTime
  rw [lastOf_map isStart_text]
  cases hlast : lastOf LogLine.IsRequestStart past with
  | none =>
    show 0 = fl (0 : ℤ)
    rw [Int.cast_zero, hzero]
  | some line =>
    obtain ⟨-, -, -, hline, -⟩ := lastOf_eq_some.mp hlast
    exact timeOf_text (.inl hline)

/-- The first `START` line, as the parser reads it. -/
theorem origin_text (hzero : fl 0 = 0) (past : List LogLine) :
    origin fl (past.map LogLine.text)
      = fl (((past.find? (·.IsRequestStart)).map LogLine.nsec).getD 0 : ℤ) := by
  have hcomp : ((IsStart ·) ∘ LogLine.text : LogLine → Bool) = (·.IsRequestStart) := by
    funext line
    exact decide_eq_decide.mpr (isStart_text line)
  unfold origin
  rw [List.find?_map, hcomp]
  cases hfirst : past.find? (·.IsRequestStart) with
  | none =>
    show 0 = fl (0 : ℤ)
    rw [Int.cast_zero, hzero]
  | some line => exact timeOf_text (.inl (by simpa using List.find?_some hfirst))

/-- In a log whose requests are paired, each `END` line has the first `START` line of the log in
    front of it, so all samples are offset from the same one. -/
theorem first_of_paired (h : Paired log) {x : List LogLine × LogLine} (hx : x ∈ requestEnds log) :
    x.1.find? (·.IsRequestStart) = log.find? (·.IsRequestStart) := by
  obtain ⟨l, hl, hstart⟩ := h x hx
  obtain ⟨-, rest, hlog⟩ := mem_occurrences.mp hx
  have hsome : (x.1.find? (·.IsRequestStart)).isSome :=
    List.find?_isSome.mpr ⟨l, hl, decide_eq_true hstart⟩
  rw [hlog, List.find?_append, Option.or_of_isSome hsome]

/-! ### The lines of the main thread -/

namespace ClientProcess

variable {p p' : ClientProcess} {sock : Fd} {thread : ClientThread} {r : CallResult}

/-- A call of `client_send_request` writes the reading that it takes, and nothing if it takes
    none. -/
theorem log_requestStep (h : p.FilesAt p.main) (hmain : p.main = .request sock thread)
    (hstep : p.requestStep sock thread r = some p') :
    p'.log = p.log ++ ((p.main.reading r).map Reading.line).toList := by
  -- a call that takes no reading and writes nothing
  have hsilent : p'.log = p.log → p.main.reading r = none →
      p'.log = p.log ++ ((p.main.reading r).map Reading.line).toList := by
    intro hlog hnone
    rw [hlog, hnone]
    exact (List.append_nil _).symm
  unfold requestStep at hstep
  split at hstep
  case h_1 | h_2 | h_4 | h_5 | h_8 =>
    obtain rfl := Option.some.inj hstep
    exact hsilent (goOn_log ..) (by rw [hmain]; rfl)
  case h_3 nsec hpc =>
    -- `log_request_start`
    obtain rfl := Option.some.inj hstep
    rw [goOn_log, writeLog_log h hmain, hmain]
    simp only [MainThread.reading, hpc]
    rfl
  case h_6 last nsec hpc =>
    -- `log_request_end`
    obtain rfl := Option.some.inj hstep
    rw [goOn_log, writeLog_log h hmain, hmain]
    simp only [MainThread.reading, hpc]
    rfl
  case h_7 last hpc =>
    obtain rfl := Option.some.inj hstep
    exact hsilent (by rw [goOn_log, updateRequestCounter_log]) (by rw [hmain]; rfl)
  case h_9 hpc =>
    obtain rfl := Option.some.inj hstep
    exact hsilent (by rw [goOn_log, closeLog_log]) (by rw [hmain]; rfl)
  case h_10 | h_11 =>
    obtain rfl := Option.some.inj hstep
    exact hsilent rfl (by rw [hmain]; rfl)
  case h_12 => exact absurd hstep (by simp)

/-- A call of the main thread writes the reading that it takes. -/
theorem log_mainStep (h : p.FilesAt p.main) (hstep : p.mainStep r = some p') :
    p'.log = p.log ++ ((p.main.reading r).map Reading.line).toList := by
  unfold mainStep at hstep
  split at hstep
  case h_8 sock thread hmain => exact log_requestStep h hmain hstep
  case h_10 => exact absurd hstep (by simp)
  all_goals
    rename_i hmain
    obtain rfl := Option.some.inj hstep
    rw [hmain]
    exact (List.append_nil _).symm

end ClientProcess

/-! ### The log tells the record -/

namespace TimedClient

open ClientProcess

variable {clock : ℤ → Prop} {s : TimedClient} {p : ClientProcess} {a : ClientAction}

/-- The log of the process tells the record, and each time in it is a reading of the clock. -/
structure Logged (clock : ℤ → Prop) (s : TimedClient) : Prop where
  paired : s.process.RequestsPaired
  first : (s.process.log.find? (·.IsRequestStart)).map LogLine.nsec = s.first
  started : ((lastOf LogLine.IsRequestStart s.process.log).map LogLine.nsec).getD 0 = s.started
  timings : (requestEnds s.process.log).map lineTiming = s.timings
  read : ∀ line ∈ s.process.log, line.IsRequestStart ∨ line.IsRequestEnd → clock line.nsec

/-- What the clock shows, if it is read: `clock` says which readings there can be. -/
def ClockReads (clock : ℤ → Prop) (a : ClientAction) : Prop :=
  ∀ nsec, a = .main (.clock nsec) → clock nsec

/-- Nothing is recorded, and the log is empty. -/
theorem logged_start (withLogFile : Bool) : (start withLogFile).Logged clock where
  paired := ⟨(tracked_start withLogFile).files, False.elim, fun _ hx => absurd hx List.not_mem_nil⟩
  first := rfl
  started := rfl
  timings := rfl
  read := fun _ hl => absurd hl List.not_mem_nil

/-- A line that is neither a `START` nor an `END` line changes nothing: a marker of the listener,
    wherever it comes. -/
theorem Logged.other (h : s.Logged clock) {line : LogLine} (hpaired : p.RequestsPaired)
    (hlog : p.log = s.process.log ++ [line]) (hstart : ¬ line.IsRequestStart)
    (hend : ¬ line.IsRequestEnd) : { s with process := p : TimedClient }.Logged clock where
  paired := hpaired
  first := by
    have hnone : [line].find? (·.IsRequestStart) = none := by simp [hstart]
    show (p.log.find? _).map _ = _
    rw [hlog, List.find?_append, hnone, Option.or_none]
    exact h.first
  started := by
    show ((lastOf _ p.log).map _).getD 0 = _
    rw [hlog, lastOf_concat_neg _ hstart]
    exact h.started
  timings := by
    show (requestEnds p.log).map _ = _
    rw [hlog, requestEnds_concat hend]
    exact h.timings
  read := by
    intro l hl hkind
    rw [show ({ s with process := p : TimedClient }).process.log = p.log from rfl, hlog] at hl
    rcases List.mem_append.mp hl with hl | hl
    · exact h.read l hl hkind
    · rw [List.mem_singleton.mp hl] at hkind
      exact absurd hkind (not_or.mpr ⟨hstart, hend⟩)

/-- A step that writes nothing changes nothing. -/
theorem Logged.silent (h : s.Logged clock) (hpaired : p.RequestsPaired)
    (hlog : p.log = s.process.log) : { s with process := p : TimedClient }.Logged clock where
  paired := hpaired
  first := by
    show (p.log.find? _).map _ = _
    rw [hlog]
    exact h.first
  started := by
    show ((lastOf _ p.log).map _).getD 0 = _
    rw [hlog]
    exact h.started
  timings := by
    show (requestEnds p.log).map _ = _
    rw [hlog]
    exact h.timings
  read := by
    intro l hl
    rw [show ({ s with process := p : TimedClient }).process.log = p.log from rfl, hlog] at hl
    exact h.read l hl

/-- A reading that is taken and written: it is in the record and on the last line of the log. -/
theorem Logged.concat (h : s.Logged clock) {x : Reading} {nsec : ℤ}
    (hx : x = .start nsec ∨ x = .stop nsec) (hclock : clock nsec) (hpaired : p.RequestsPaired)
    (hlog : p.log = s.process.log ++ [x.line]) :
    { s.record (some x) with process := p : TimedClient }.Logged clock := by
  have hall : ∀ line ∈ p.log, line.IsRequestStart ∨ line.IsRequestEnd → clock line.nsec := by
    intro l hl hkind
    rw [hlog] at hl
    rcases List.mem_append.mp hl with hl | hl
    · exact h.read l hl hkind
    · rw [List.mem_singleton.mp hl]
      -- the new line, of either kind, has the reading on it
      rcases hx with rfl | rfl
      · exact hclock
      · exact hclock
  rcases hx with rfl | rfl
  · have hstart : (Reading.start nsec).line.IsRequestStart := trivial
    refine ⟨hpaired, ?_, ?_, ?_, hall⟩
    · -- the first line stays the first
      show (p.log.find? _).map _ = some (s.first.getD nsec)
      rw [hlog, List.find?_append, ← h.first]
      cases s.process.log.find? (·.IsRequestStart) with
      | none => rfl
      | some line => rfl
    · show ((lastOf _ p.log).map _).getD 0 = nsec
      rw [hlog, lastOf_concat_pos _ hstart]
      rfl
    · show (requestEnds p.log).map _ = s.timings
      rw [hlog, requestEnds_concat (show ¬ (Reading.start nsec).line.IsRequestEnd from not_false)]
      exact h.timings
  · have hend : (Reading.stop nsec).line.IsRequestEnd := trivial
    refine ⟨hpaired, ?_, ?_, ?_, hall⟩
    · show (p.log.find? _).map _ = s.first
      rw [hlog, List.find?_append, ← h.first]
      exact congrArg (Option.map LogLine.nsec) (Option.or_none)
    · show ((lastOf _ p.log).map _).getD 0 = s.started
      rw [hlog, lastOf_concat_neg _ not_false]
      exact h.started
    · -- the line is paired with the last `START` line
      show (requestEnds p.log).map _ = s.timings ++ [(s.started, nsec)]
      rw [hlog, requestEnds, occurrences_concat, if_pos hend, List.map_append, ← h.started,
        ← h.timings]
      rfl

/-- **Step lemma.**  The log goes on telling the record: a call of the main thread writes what it
    records, and the listener writes markers only. -/
theorem logged_step :
    timedClient.InvariantOn (fun _ a => ClockReads clock a) (Logged clock) := by
  intro s a s' h hreads hact
  obtain ⟨p, hp, rfl⟩ := Option.map_eq_some_iff.mp hact
  have hpaired := requestsPaired_step h.paired hp
  cases a with
  | main r =>
    have hlog := log_mainStep h.paired.files (act_main hp).2
    show ({ s.record (s.process.main.reading r) with process := p } : TimedClient).Logged clock
    cases hreading : s.process.main.reading r with
    | none =>
      rw [hreading] at hlog
      exact h.silent hpaired (hlog.trans (List.append_nil _))
    | some x =>
      rw [hreading] at hlog
      -- only a reading of the clock is recorded
      have hclock : ∃ nsec, r = .clock nsec ∧ (x = .start nsec ∨ x = .stop nsec) := by
        unfold MainThread.reading at hreading
        split at hreading
        case h_1 nsec hmain =>
          split at hreading
          · exact ⟨nsec, rfl, .inl (Option.some.inj hreading).symm⟩
          · exact ⟨nsec, rfl, .inr (Option.some.inj hreading).symm⟩
          · exact absurd hreading (by simp)
        case h_2 => exact absurd hreading (by simp)
      obtain ⟨nsec, rfl, hx⟩ := hclock
      exact h.concat hx (hreads nsec rfl) hpaired hlog
  | hear msg | write | setState =>
    obtain ⟨-, -, -, hlog⟩ := listenerStep_log (act_listener hp (by simp)).2
    rcases hlog with hlog | ⟨marker, hlog⟩
    · exact h.silent hpaired hlog
    · exact h.other hpaired hlog not_false not_false

/-- The sample of an `END` line is the time of its message, as both subtract the same numbers and
    round in the same places. -/
theorem Logged.sampleOf (h : s.Logged clock) (hzero : fl 0 = 0) {x : List LogLine × LogLine}
    (hx : x ∈ requestEnds s.process.log) :
    NetworkExperiment.sample fl (x.1.map LogLine.text, x.2.text) = s.sample fl (lineTiming x) := by
  have hend : x.2.IsRequestEnd := (mem_occurrences.mp hx).1
  unfold NetworkExperiment.sample TimedClient.sample lineTiming
  dsimp only
  rw [startTime_text hzero, origin_text hzero, timeOf_text (.inr hend),
    first_of_paired h.paired.paired hx, h.first]

/-- The log can be parsed, and all its times are positive, as those of the clock are. -/
theorem Logged.wellTimed (h : s.Logged clock) (hpositive : ∀ nsec, clock nsec → 0 < nsec) :
    WellTimed (lines (render s.process.log)) where
  number := by
    intro l hl hkind
    rw [lines_render] at hl
    obtain ⟨line, hline, rfl⟩ := List.mem_map.mp hl
    rw [isStart_text, isEnd_text] at hkind
    obtain ⟨nsec, hnsec⟩ := number_text hkind
    have htime := @timeOf_text id line hkind
    rw [timeOf_eq hnsec] at htime
    refine ⟨nsec, hnsec, ?_⟩
    rw [show (nsec : ℚ) = line.nsec from htime]
    exact_mod_cast hpositive _ (h.read line hline hkind)
  paired := (wellFormed_render h.paired.paired).paired

/-- The times of a message, and the first one, have been read: each is on a line of the log. -/
theorem Logged.timing (h : s.Logged clock) {t : ℤ × ℤ} (ht : t ∈ s.timings) :
    clock t.1 ∧ clock t.2 ∧ clock (s.first.getD 0) := by
  rw [← h.timings] at ht
  obtain ⟨x, hx, rfl⟩ := List.mem_map.mp ht
  obtain ⟨hend, rest, hlog⟩ := mem_occurrences.mp hx
  obtain ⟨line, hline, hstart⟩ := h.paired.paired x hx
  have hmem : ∀ l ∈ x.1, l ∈ s.process.log := fun l hl => hlog ▸ List.mem_append_left _ hl
  refine ⟨?_, ?_, ?_⟩
  · unfold lineTiming
    -- the last `START` line in front of it, of which there is one
    cases hlast : lastOf LogLine.IsRequestStart x.1 with
    | none => exact absurd hstart (lastOf_eq_none.mp hlast line hline)
    | some l =>
      obtain ⟨l₁, l₂, hsplit, hl, -⟩ := lastOf_eq_some.mp hlast
      exact h.read l (hmem l (hsplit ▸ by simp)) (.inl hl)
  · -- the `END` line itself
    exact h.read x.2 (hlog ▸ by simp) (.inr hend)
  · rw [← h.first]
    -- the first `START` line of the log
    cases hfirst : s.process.log.find? (·.IsRequestStart) with
    | none =>
      have hnone := List.find?_eq_none.mp hfirst line (hmem line hline)
      exact absurd hstart (by simpa using hnone)
    | some l =>
      have hmem := List.mem_of_find?_eq_some hfirst
      exact h.read l hmem (.inl (by simpa using List.find?_some hfirst))

/-- **The rounding.**  Where the clock stays between two powers of two, the time that a message took
    is a sample up to one unit of the floats in this range, and its start up to two of them. -/
theorem Logged.error {k : ℕ} (h : s.Logged clock)
    (hclock : ∀ nsec, clock nsec → 2 ^ k ≤ nsec ∧ nsec < 2 ^ (k + 1)) {t : ℤ × ℤ}
    (ht : t ∈ s.timings) :
    |(s.sample binary64 t).2 - (t.2 - t.1)| ≤ 2 ^ (k - 52 : ℤ) ∧
      |(s.sample binary64 t).1 - (t.1 - s.first.getD 0) / 10 ^ 9| ≤ 2 ^ (k - 51 : ℤ) / 10 ^ 9 := by
  have hrange : ∀ nsec, clock nsec → (2 : ℚ) ^ (k : ℤ) ≤ nsec ∧ (nsec : ℚ) < 2 ^ (k + 1 : ℤ) := by
    intro nsec hnsec
    obtain ⟨hle, hlt⟩ := hclock nsec hnsec
    exact ⟨by exact_mod_cast hle, by exact_mod_cast hlt⟩
  obtain ⟨hstart, hend, hfirst⟩ := h.timing ht
  obtain ⟨hstart, hstart'⟩ := hrange _ hstart
  obtain ⟨hend, hend'⟩ := hrange _ hend
  obtain ⟨hfirst, hfirst'⟩ := hrange _ hfirst
  have hone : (k + 1 - (53 : ℕ) : ℤ) = k - 52 := by
    push_cast
    ring
  have htwo : (k + 2 - (53 : ℕ) : ℤ) = k - 51 := by
    push_cast
    ring
  have hpos : (0 : ℚ) < 10 ^ 9 := by norm_num
  -- both numbers of a difference are rounded, and then the difference or its quotient
  constructor
  · rw [← hone]
    exact abs_roundTo_sub_sub_le (by decide) hend hend' hstart hstart'
  · rw [← htwo]
    exact abs_roundTo_div_sub_le (by decide) hstart hstart' hfirst hfirst' hpos

end TimedClient

open TimedClient

/-- Two messages with the beginning of control between them, which took 700 and 1900 nanoseconds. -/
def timedMessages : List ClientAction :=
  toFirstRequest ++ [.main .done, .main (.filled (frame (.blank .reqAck))),
    .main (.clock 1700000000000000100), .main (.filled (frame (.blank .fileBlock))), .main .done,
    .main (.clock 1700000000000000800), .main .done] ++ hearControl ++
  [.main (.clock 1700000001000000000), .main (.filled (frame (.blank .fileComplete))), .main .done,
    .main (.clock 1700000001000001900), .main .done]

end NetworkExperiment
