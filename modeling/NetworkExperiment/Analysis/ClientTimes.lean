import NetworkExperiment.Analysis.Text
import NetworkExperiment.Lib.LastEvent

namespace NetworkExperiment

open LastEvents

/-!
# The parser of the timing logs

`Parser` of `data_parser.py`, for any way `fl` in which numbers are rounded: `binary64` in Python,
`id` if times are taken as exact:

* `ClientTimes` — the six lists that `_parse_client_times` returns;
* `parseLine` — what its loop does with a line;
* `parseLoop` / `parseClientTimes` / `parse` — the loop, and what the parser keeps of it;
* `ParseState.Behind` — the state of the loop behind a log, told by the log alone;
* `parseClientTimes_eq` — every `END` line gives one sample, sorted by the markers in front of it.
-/

/-! ### The parser -/

/-- An exception. -/
inductive PyError
  | indexError
  | valueError
  | typeError
deriving DecidableEq, Repr

/-- A sample: when its request started, and how long it took. -/
abbrev Datapt := ℚ × ℚ

/-- The lists that `_parse_client_times` returns. -/
structure ClientTimes where
  rtts : List Datapt
  rttsWFlooder : List Datapt
  rttsWoFlooder : List Datapt
  ctrlRtts : List Datapt
  ctrlRttsWFlooder : List Datapt
  ctrlRttsWoFlooder : List Datapt
deriving DecidableEq, Repr

/-- The local variables of `_parse_client_times`. -/
structure ParseState where
  times : ClientTimes
  control : Bool
  flooderOn : Bool
  stime : ℚ
  firstStart : Option ℚ
deriving DecidableEq, Repr

/-- The variables in front of the loop. -/
def ParseState.start : ParseState := ⟨⟨[], [], [], [], [], []⟩, false, true, 0, none⟩

/-- `float(line.split()[1])`: a line without a second word, and a word that is no number, are
    exceptions. -/
def floatOf (fl : ℚ → ℚ) (line : List Char) : Except PyError ℚ :=
  match (split line)[1]? with
  | none => .error .indexError
  | some token =>
      match pyFloat fl token with
      | none => .error .valueError
      | some t => .ok t

/-- The sample goes to `rtts` or to `ctrl_rtts`, and to the list of its kind: with the flooder or
    without. -/
def ClientTimes.append (r : ClientTimes) (control flooderOn : Bool) (datapt : Datapt) :
    ClientTimes :=
  let r :=
    if !control then { r with rtts := r.rtts ++ [datapt] }
    else { r with ctrlRtts := r.ctrlRtts ++ [datapt] }
  if flooderOn then
    if !control then { r with rttsWFlooder := r.rttsWFlooder ++ [datapt] }
    else { r with ctrlRttsWFlooder := r.ctrlRttsWFlooder ++ [datapt] }
  else
    if !control then { r with rttsWoFlooder := r.rttsWoFlooder ++ [datapt] }
    else { r with ctrlRttsWoFlooder := r.ctrlRttsWoFlooder ++ [datapt] }

/-- A `START` line. -/
def ParseState.startLine (fl : ℚ → ℚ) (s : ParseState) (line : List Char) :
    Except PyError ParseState := do
  let stime ← floatOf fl line
  -- `not first_start` holds of `None` and of 0
  let firstStart := if s.firstStart = none ∨ s.firstStart = some 0 then some stime else s.firstStart
  return { s with stime := stime, firstStart := firstStart }

/-- An `END` line; without a `START` line in front of it there is nothing to subtract. -/
def ParseState.endLine (fl : ℚ → ℚ) (s : ParseState) (line : List Char) :
    Except PyError ParseState := do
  let etime ← floatOf fl line
  let rtt := fl (etime - s.stime)
  match s.firstStart with
  | none => throw .typeError
  | some firstStart =>
      let datapt := (fl (fl (s.stime - firstStart) / 10 ^ 9), rtt)
      return { s with times := s.times.append s.control s.flooderOn datapt }

/-- The flags that the flooder's markers set.  There are three tests one behind the other, in the
    order of the source; a line passes no two of them. -/
def ParseState.flags (s : ParseState) (line : List Char) : ParseState :=
  let s := if startswith line "FLOODER_START" then { s with flooderOn := true } else s
  let s := if startswith line "FLOODER_END" then { s with flooderOn := false } else s
  if startswith line "FLOODER_CONTROL" then { s with control := true } else s

/-- The body of the loop.  Whether a line is an `END` line is tested behind a `START` line too. -/
def parseLine (fl : ℚ → ℚ) (s : ParseState) (line : List Char) : Except PyError ParseState := do
  let s := s.flags line
  let s ← if startswith line "START" then s.startLine fl line else pure s
  if startswith line "END" then s.endLine fl line else pure s

/-- The loop, with `rest` to be read. -/
def parseLoop (fl : ℚ → ℚ) (s : ParseState) (rest : List Char) : Except PyError ParseState :=
  (lines rest).foldlM (parseLine fl) s

/-- `_parse_client_times` of a file with this text. -/
def parseClientTimes (fl : ℚ → ℚ) (times : List Char) : Except PyError ClientTimes := do
  let s ← parseLoop fl .start times
  return s.times

/-- `Rtt`. -/
structure Rtt where
  rtts : List Datapt
  rttsWFlooder : List Datapt
  rttsWoFlooder : List Datapt
deriving DecidableEq, Repr

/-- `Parser`: what `parse` keeps. -/
structure Parser where
  rtts : Rtt
  rttsControl : Rtt
deriving DecidableEq, Repr

/-- `Parser.parse`. -/
def Parser.parse (fl : ℚ → ℚ) (times : List Char) : Except PyError Parser := do
  let r ← parseClientTimes fl times
  return ⟨⟨r.rtts, r.rttsWFlooder, r.rttsWoFlooder⟩,
    ⟨r.ctrlRtts, r.ctrlRttsWFlooder, r.ctrlRttsWoFlooder⟩⟩

/-- A pass of the loop reads a line and parses it, and the empty line ends the loop. -/
theorem parseLoop_eq (fl : ℚ → ℚ) (s : ParseState) (rest : List Char) : parseLoop fl s rest =
    if (readline rest).1 = [] then .ok s
    else parseLine fl s (readline rest).1 >>= fun s => parseLoop fl s (readline rest).2 := by
  unfold parseLoop
  rw [lines_eq_readline]
  split_ifs with hend
  · rfl
  · rw [List.foldlM_cons]

/-! ### What a log says -/

/-- The kinds of lines. -/
abbrev IsStart (line : List Char) : Prop := startswith line "START"
abbrev IsEnd (line : List Char) : Prop := startswith line "END"
abbrev IsControl (line : List Char) : Prop := startswith line "FLOODER_CONTROL"

/-- A line that opens or closes a window of the flooder. -/
abbrev IsWindow (line : List Char) : Prop :=
  startswith line "FLOODER_START" ∨ startswith line "FLOODER_END"

/-- The number on a line. -/
def number (line : List Char) : Option ℚ := (split line)[1]?.bind decimal

/-- The number on a line, rounded, or 0. -/
def timeOf (fl : ℚ → ℚ) (line : List Char) : ℚ := ((number line).map fl).getD 0

/-- The time of the last `START` line. -/
def startTime (fl : ℚ → ℚ) (past : List (List Char)) : ℚ :=
  ((lastOf IsStart past).map (timeOf fl)).getD 0

/-- The time of the first `START` line; a 0 is passed over, as the source tests with `not`. -/
def firstTime (fl : ℚ → ℚ) (past : List (List Char)) : ℚ :=
  (((past.filter (IsStart ·)).map (timeOf fl)).find? (· ≠ 0)).getD 0

/-- The control sequence has begun. -/
def InControl (past : List (List Char)) : Prop := ∃ line ∈ past, IsControl line

/-- No window has been closed since the last one was opened; at first one counts as open. -/
def FlooderOn (past : List (List Char)) : Prop :=
  ∀ line, lastOf IsWindow past = some line → startswith line "FLOODER_START"

instance (past : List (List Char)) : Decidable (InControl past) :=
  inferInstanceAs (Decidable (∃ _ ∈ _, _))

instance (past : List (List Char)) : Decidable (FlooderOn past) :=
  decidable_of_iff (∀ line ∈ lastOf IsWindow past, startswith line "FLOODER_START") Iff.rfl

/-- The sample of an `END` line. -/
def sampleOf (fl : ℚ → ℚ) (x : List (List Char) × List Char) : Datapt :=
  (fl (fl (startTime fl x.1 - firstTime fl x.1) / 10 ^ 9), fl (timeOf fl x.2 - startTime fl x.1))

/-- The `END` lines sorted by what is in front of them. -/
def ClientTimes.sort (fl : ℚ → ℚ) (ends : List (List (List Char) × List Char)) : ClientTimes where
  rtts := (ends.filter fun x => ¬ InControl x.1).map (sampleOf fl)
  rttsWFlooder := (ends.filter fun x => ¬ InControl x.1 ∧ FlooderOn x.1).map (sampleOf fl)
  rttsWoFlooder := (ends.filter fun x => ¬ InControl x.1 ∧ ¬ FlooderOn x.1).map (sampleOf fl)
  ctrlRtts := (ends.filter fun x => InControl x.1).map (sampleOf fl)
  ctrlRttsWFlooder := (ends.filter fun x => InControl x.1 ∧ FlooderOn x.1).map (sampleOf fl)
  ctrlRttsWoFlooder := (ends.filter fun x => InControl x.1 ∧ ¬ FlooderOn x.1).map (sampleOf fl)

/-! ### One more line -/

section Concat

variable {fl : ℚ → ℚ} {past : List (List Char)} {line : List Char} {s s' : ParseState}

/-- A line does not start with two words of which none starts with the other: this keeps the kinds
    of lines apart. -/
theorem not_startswith {u v : String} (h : startswith line u) (huv : ¬ u.toList <+: v.toList)
    (hvu : ¬ v.toList <+: u.toList) : ¬ startswith line v := by
  intro hv
  rcases List.prefix_or_prefix_of_prefix h hv with huv' | hvu'
  · exact huv huv'
  · exact hvu hvu'

/-- Control begins with its line, and does not end. -/
theorem inControl_concat : InControl (past ++ [line]) ↔ InControl past ∨ IsControl line := by
  unfold InControl
  simp only [List.mem_append, List.mem_singleton, or_and_right, exists_or, exists_eq_left]

/-- A window has been opened. -/
theorem flooderOn_concat_start (h : startswith line "FLOODER_START") :
    FlooderOn (past ++ [line]) := by
  intro l hl
  rw [lastOf_concat_pos past (show IsWindow line from .inl h)] at hl
  exact Option.some.inj hl ▸ h

/-- A window has been closed. -/
theorem flooderOn_concat_end (h : startswith line "FLOODER_END") :
    ¬ FlooderOn (past ++ [line]) := by
  intro hon
  have hstart := hon line (lastOf_concat_pos past (show IsWindow line from .inr h))
  exact not_startswith h (by decide) (by decide) hstart

/-- Other lines leave the windows as they are. -/
theorem flooderOn_concat (h : ¬ IsWindow line) : FlooderOn (past ++ [line]) ↔ FlooderOn past := by
  unfold FlooderOn
  rw [lastOf_concat_neg past h]

/-- The last `START` line is the new one, -/
theorem startTime_concat_start (h : IsStart line) :
    startTime fl (past ++ [line]) = timeOf fl line := by
  unfold startTime
  rw [lastOf_concat_pos past h]
  rfl

/-- or stays the one it was. -/
theorem startTime_concat (h : ¬ IsStart line) :
    startTime fl (past ++ [line]) = startTime fl past := by
  unfold startTime
  rw [lastOf_concat_neg past h]

/-- A `START` line sets the first time if this is still 0. -/
theorem firstTime_concat_start (h : IsStart line) : firstTime fl (past ++ [line])
    = if firstTime fl past = 0 then timeOf fl line else firstTime fl past := by
  have hkept : [line].filter (IsStart ·) = [line] := List.filter_cons_of_pos (decide_eq_true h)
  unfold firstTime
  rw [List.filter_append, List.map_append, List.find?_append, hkept]
  cases hfind : ((past.filter (IsStart ·)).map (timeOf fl)).find? (· ≠ 0) with
  | none =>
    -- a new time of 0 is passed over as well
    by_cases htime : timeOf fl line = 0
    · simp [htime]
    · simp [htime]
  | some t =>
    have ht := List.find?_some hfind
    exact (if_neg (of_decide_eq_true ht)).symm

theorem firstTime_concat (h : ¬ IsStart line) :
    firstTime fl (past ++ [line]) = firstTime fl past := by
  have hnone : [line].filter (IsStart ·) = [] := List.filter_cons_of_neg (by simpa using h)
  unfold firstTime
  rw [List.filter_append, hnone, List.append_nil]

/-- One more `END` line is one more sample, in the lists that its flags say. -/
theorem sort_concat (fl : ℚ → ℚ) (ends : List (List (List Char) × List Char))
    (x : List (List Char) × List Char) : ClientTimes.sort fl (ends ++ [x])
      = (ClientTimes.sort fl ends).append (InControl x.1) (FlooderOn x.1) (sampleOf fl x) := by
  unfold ClientTimes.sort ClientTimes.append
  by_cases hcontrol : InControl x.1 <;> by_cases hon : FlooderOn x.1 <;>
    simp [List.filter_append, hcontrol, hon]

/-! ### The loop -/

/-- The variables behind a log: what each of them holds is told by the lines that have been
    read. -/
structure ParseState.Behind (fl : ℚ → ℚ) (s : ParseState) (past : List (List Char)) : Prop where
  times : s.times = .sort fl (occurrences IsEnd past)
  control : s.control = decide (InControl past)
  flooderOn : s.flooderOn = decide (FlooderOn past)
  stime : s.stime = startTime fl past
  firstStart : s.firstStart =
    if ∃ line ∈ past, IsStart line then some (firstTime fl past) else none

theorem behind_start : ParseState.start.Behind fl [] where
  times := rfl
  control := rfl
  flooderOn := rfl
  stime := rfl
  firstStart := rfl

theorem floatOf_eq {t : ℚ} (h : number line = some t) : floatOf fl line = .ok (fl t) := by
  obtain ⟨token, htoken, ht⟩ := Option.bind_eq_some_iff.mp h
  unfold floatOf
  rw [htoken]
  dsimp only [pyFloat]
  rw [ht]
  rfl

theorem timeOf_eq {t : ℚ} (h : number line = some t) : timeOf fl line = fl t := by
  unfold timeOf
  rw [h]
  rfl

/-- A line that is no `END` line gives no sample. -/
theorem sort_occurrences_concat (h : ¬ IsEnd line) :
    ClientTimes.sort fl (occurrences IsEnd (past ++ [line])) =
      .sort fl (occurrences IsEnd past) := by
  rw [occurrences_concat, if_neg h, List.append_nil]

theorem flags_times : (s.flags line).times = s.times := by
  unfold ParseState.flags
  dsimp only
  split <;> split <;> split <;> rfl

theorem flags_stime : (s.flags line).stime = s.stime := by
  unfold ParseState.flags
  dsimp only
  split <;> split <;> split <;> rfl

theorem flags_firstStart : (s.flags line).firstStart = s.firstStart := by
  unfold ParseState.flags
  dsimp only
  split <;> split <;> split <;> rfl

/-- A `START` line sets the times. -/
theorem parseLine_start {t : ℚ} (h : IsStart line) (ht : number line = some t) : parseLine fl s line
    = .ok { s.flags line with
      stime := fl t
      firstStart := if s.firstStart = none ∨ s.firstStart = some 0 then some (fl t)
        else s.firstStart } := by
  -- it is no `END` line, so the second test fails
  have hend : ¬ IsEnd line := not_startswith h (by decide) (by decide)
  unfold parseLine
  dsimp only
  rw [if_pos h]
  unfold ParseState.startLine
  rw [floatOf_eq ht, flags_firstStart]
  exact if_neg hend

/-- An `END` line adds a sample. -/
theorem parseLine_end {t first : ℚ} (h : IsEnd line) (ht : number line = some t)
    (hfirst : s.firstStart = some first) : parseLine fl s line
    = .ok { s.flags line with
      times := s.times.append (s.flags line).control (s.flags line).flooderOn
        (fl (fl (s.stime - first) / 10 ^ 9), fl (fl t - s.stime)) } := by
  have hstart : ¬ IsStart line := not_startswith h (by decide) (by decide)
  unfold parseLine
  dsimp only
  rw [if_neg hstart]
  refine (if_pos h).trans ?_
  unfold ParseState.endLine
  rw [floatOf_eq ht, flags_firstStart, hfirst, flags_times, flags_stime]
  rfl

/-- Any other line sets flags at most, whatever stands on it. -/
theorem parseLine_other (hstart : ¬ IsStart line) (hend : ¬ IsEnd line) :
    parseLine fl s line = .ok (s.flags line) := by
  unfold parseLine
  rw [if_neg hstart]
  exact if_neg hend

/-- The flags behind one more line, of any kind. -/
theorem ParseState.Behind.flags (h : s.Behind fl past) :
    (s.flags line).control = decide (InControl (past ++ [line])) ∧
    (s.flags line).flooderOn = decide (FlooderOn (past ++ [line])) := by
  constructor
  · rw [decide_eq_decide.mpr inControl_concat, Bool.decide_or, ← h.control]
    unfold ParseState.flags
    dsimp only
    by_cases hcontrol : IsControl line
    · rw [if_pos hcontrol, decide_eq_true hcontrol, Bool.or_true]
    · rw [if_neg hcontrol, decide_eq_false hcontrol, Bool.or_false]
      split <;> split <;> rfl
  · unfold ParseState.flags
    dsimp only
    -- the test for the end of a window comes behind the one for its beginning
    by_cases hclose : startswith line "FLOODER_END"
    · rw [if_pos hclose, decide_eq_false (flooderOn_concat_end hclose)]
      split <;> rfl
    · rw [if_neg hclose]
      by_cases hopen : startswith line "FLOODER_START"
      · rw [if_pos hopen, decide_eq_true (flooderOn_concat_start hopen)]
        split <;> rfl
      · rw [if_neg hopen,
          decide_eq_decide.mpr (flooderOn_concat (not_or.mpr ⟨hopen, hclose⟩)), ← h.flooderOn]
        split <;> rfl

/-- Only a `START` line changes whether there has been one. -/
theorem exists_start_concat (hstart : ¬ IsStart line) :
    (∃ l ∈ past ++ [line], IsStart l) ↔ ∃ l ∈ past, IsStart l := by
  simp only [List.mem_append, List.mem_singleton, or_and_right, exists_or, exists_eq_left,
    or_iff_left hstart]

/-- Without a `START` line there is no first one. -/
theorem firstTime_eq_zero (h : ¬ ∃ l ∈ past, IsStart l) : firstTime fl past = 0 := by
  have hnone : past.filter (IsStart ·) = [] := by
    rw [List.filter_eq_nil_iff]
    intro l hl hstart
    exact h ⟨l, hl, of_decide_eq_true hstart⟩
  unfold firstTime
  rw [hnone]
  rfl

/-- `not first_start` says that the first time is still 0: there has been no `START` line, or only
    ones with a time of 0. -/
theorem ParseState.Behind.not_firstStart (h : s.Behind fl past) :
    s.firstStart = none ∨ s.firstStart = some 0 ↔ firstTime fl past = 0 := by
  rw [h.firstStart]
  by_cases hsome : ∃ l ∈ past, IsStart l
  · rw [if_pos hsome]
    simp
  · rw [if_neg hsome]
    simp [firstTime_eq_zero hsome]

/-- **A line of the log.**  It is parsed if it is well formed, and the variables follow the log. -/
theorem ParseState.Behind.step (h : s.Behind fl past)
    (hnumber : IsStart line ∨ IsEnd line → ∃ t, number line = some t)
    (hpaired : IsEnd line → ∃ l ∈ past, IsStart l) :
    ∃ s', parseLine fl s line = .ok s' ∧ s'.Behind fl (past ++ [line]) := by
  obtain ⟨hcontrol, hon⟩ := @ParseState.Behind.flags fl past line s h
  by_cases hstart : IsStart line
  · -- a `START` line
    obtain ⟨t, ht⟩ := hnumber (.inl hstart)
    have hend : ¬ IsEnd line := not_startswith hstart (by decide) (by decide)
    have hsome : ∃ l ∈ past ++ [line], IsStart l := ⟨line, by simp, hstart⟩
    refine ⟨_, parseLine_start hstart ht, ?_, hcontrol, hon, ?_, ?_⟩
    · exact (flags_times.trans h.times).trans (sort_occurrences_concat hend).symm
    · exact (timeOf_eq ht).symm.trans (startTime_concat_start hstart).symm
    · rw [if_pos hsome, firstTime_concat_start hstart, timeOf_eq ht]
      by_cases hzero : firstTime fl past = 0
      · rw [if_pos hzero]
        exact if_pos (h.not_firstStart.mpr hzero)
      · rw [if_neg hzero]
        refine (if_neg (mt h.not_firstStart.mp hzero)).trans ?_
        rw [h.firstStart, if_pos]
        by_contra hno
        exact hzero (firstTime_eq_zero hno)
  · -- the times stay as they are
    have hfirst : (s.flags line).firstStart =
        if ∃ l ∈ past ++ [line], IsStart l then some (firstTime fl (past ++ [line])) else none := by
      rw [flags_firstStart, h.firstStart, firstTime_concat hstart]
      exact if_congr (exists_start_concat hstart).symm rfl rfl
    have hstime : (s.flags line).stime = startTime fl (past ++ [line]) :=
      (flags_stime.trans h.stime).trans (startTime_concat hstart).symm
    by_cases hend : IsEnd line
    · -- an `END` line
      obtain ⟨t, ht⟩ := hnumber (.inr hend)
      have hnone : ¬ IsControl line := not_startswith hend (by decide) (by decide)
      have hwindow : ¬ IsWindow line := not_or.mpr
        ⟨not_startswith hend (by decide) (by decide), not_startswith hend (by decide) (by decide)⟩
      have hfirst' := h.firstStart
      rw [if_pos (hpaired hend)] at hfirst'
      refine ⟨_, parseLine_end hend ht hfirst', ?_, hcontrol, hon, hstime, hfirst⟩
      rw [occurrences_concat, if_pos hend, sort_concat, hcontrol, hon, h.times, h.stime,
        decide_eq_decide.mpr (flooderOn_concat hwindow),
        decide_eq_decide.mpr (inControl_concat.trans (or_iff_left hnone)),
        ← @timeOf_eq fl line t ht]
      rfl
    · -- any other line
      refine ⟨_, parseLine_other hstart hend, ?_, hcontrol, hon, hstime, hfirst⟩
      exact (flags_times.trans h.times).trans (sort_occurrences_concat hend).symm

end Concat

/-- The log can be parsed: every `START` and `END` line has its number, and every `END` line a
    `START` line in front of it. -/
structure WellFormed (ls : List (List Char)) : Prop where
  number : ∀ line ∈ ls, IsStart line ∨ IsEnd line → ∃ t, number line = some t
  paired : ∀ x ∈ occurrences IsEnd ls, ∃ line ∈ x.1, IsStart line

/-- The loop goes through the log, by induction from its end: a log that can be parsed can be
    parsed up to any of its lines. -/
theorem foldlM_parseLine (fl : ℚ → ℚ) {ls : List (List Char)} (h : WellFormed ls) :
    ∃ s, ls.foldlM (parseLine fl) .start = .ok s ∧ s.Behind fl ls := by
  induction ls using List.reverseRecOn with
  | nil => exact ⟨_, rfl, behind_start⟩
  | append_singleton ls line ih =>
    have hpaired := forall_occurrences_concat.mp h.paired
    have hprefix : WellFormed ls :=
      ⟨fun l hl => h.number l (List.mem_append_left _ hl), hpaired.1⟩
    obtain ⟨s, hs, hbehind⟩ := ih hprefix
    obtain ⟨s', hs', hbehind'⟩ := hbehind.step
      (h.number line (List.mem_append_right _ List.mem_cons_self)) hpaired.2
    refine ⟨s', ?_, hbehind'⟩
    rw [List.foldlM_append, hs]
    show List.foldlM (parseLine fl) s [line] = _
    rw [List.foldlM_cons, hs']
    rfl

/-- **Parsing.**  Every `END` line gives one sample, sorted by the markers in front of it, with the
    times of the first and the last `START` line in front of it. -/
theorem parseClientTimes_eq (fl : ℚ → ℚ) {times : List Char} (h : WellFormed (lines times)) :
    parseClientTimes fl times = .ok (.sort fl (occurrences IsEnd (lines times))) := by
  obtain ⟨s, hs, hbehind⟩ := foldlM_parseLine fl h
  unfold parseClientTimes parseLoop
  rw [hs, ← hbehind.times]
  rfl

end NetworkExperiment
