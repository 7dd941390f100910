import NetworkExperiment.Analysis.ClientLog
import NetworkExperiment.Analysis.Partition
import NetworkExperiment.Client.FlooderMarkers
import NetworkExperiment.Flooder.Windows

namespace NetworkExperiment

open ActionSystems ByteBuffers LastEvents

/-!
# The samples and the flooder's windows

A run of the flooder, the client's log with the markers of its messages, and the parser:

* `Windowed` — an open window at a point of the log;
* `Classified` — the samples with the flooder are those in its windows;
* `sort_with` / `sort_without` — the parser's two kinds, with a window that counts as open at first;
* `first_marker` — the first marker of the log is `FLOODER_START`;
* `samples_classified_iff` — the samples are classified right if and only if none was taken before
  the first window.
-/

/-- The last `FLOODER_START` or `FLOODER_END` is a `FLOODER_START`. -/
def Windowed (past : List LogLine) : Prop :=
  lastOf LogLine.IsWindow past = some (.flooder .flooderStart)

instance (past : List LogLine) : Decidable (Windowed past) := inferInstanceAs (Decidable (_ = _))

/-- The sample of an `END` line. -/
def requestSample (fl : ℚ → ℚ) (x : List LogLine × LogLine) : Datapt :=
  sampleOf fl (x.1.map LogLine.text, x.2.text)

/-- The samples with the flooder are those that were taken in a window, in order, and those without
    it are the others. -/
def Classified (fl : ℚ → ℚ) (log : List LogLine) (r : ClientTimes) : Prop :=
  r.rttsWFlooder ++ r.ctrlRttsWFlooder
    = ((occurrences LogLine.IsRequestEnd log).filter fun x => Windowed x.1).map (requestSample fl) ∧
  r.rttsWoFlooder ++ r.ctrlRttsWoFlooder
    = ((occurrences LogLine.IsRequestEnd log).filter fun x => ¬ Windowed x.1).map
      (requestSample fl)

instance (fl : ℚ → ℚ) (log : List LogLine) (r : ClientTimes) : Decidable (Classified fl log r) :=
  inferInstanceAs (Decidable (_ ∧ _))

variable (fl : ℚ → ℚ) {log past : List LogLine}

/-! ### The parser's flag -/

/-- The flag is set until a window has been closed. -/
theorem flooderOn_text : FlooderOn (past.map LogLine.text) ↔
    Windowed past ∨ lastOf LogLine.IsWindow past = none := by
  unfold FlooderOn Windowed
  rw [lastOf_map isWindow_text]
  cases hlast : lastOf LogLine.IsWindow past with
  | none => simp
  | some line =>
    simp only [Option.map_some, Option.some.injEq, forall_eq', reduceCtorEq, or_false]
    exact startswith_marker line .flooderStart

/-- The samples of a kind are cut at the beginning of control. -/
theorem sort_with (ls : List (List Char)) :
    (ClientTimes.sort fl (occurrences IsEnd ls)).rttsWFlooder ++
    (ClientTimes.sort fl (occurrences IsEnd ls)).ctrlRttsWFlooder
      = ((occurrences IsEnd ls).filter fun x => FlooderOn x.1).map (sampleOf fl) := by
  rw [← filter_and_append_filter_and (inControl_pairwise ls) fun x => FlooderOn x.1]
  exact List.map_append.symm

theorem sort_without (ls : List (List Char)) :
    (ClientTimes.sort fl (occurrences IsEnd ls)).rttsWoFlooder ++
    (ClientTimes.sort fl (occurrences IsEnd ls)).ctrlRttsWoFlooder
      = ((occurrences IsEnd ls).filter fun x => ¬ FlooderOn x.1).map (sampleOf fl) := by
  rw [← filter_and_append_filter_and (inControl_pairwise ls) fun x => ¬ FlooderOn x.1]
  exact List.map_append.symm

/-- The samples of a kind, told by the lines of the client. -/
theorem filter_text (P : List (List Char) → Prop) [DecidablePred P] (log : List LogLine) :
    ((occurrences IsEnd (log.map LogLine.text)).filter fun x => P x.1).map (sampleOf fl)
      = ((occurrences LogLine.IsRequestEnd log).filter fun x => P (x.1.map LogLine.text)).map
        (requestSample fl) := by
  rw [occurrences_map isEnd_text, List.filter_map, List.map_map]
  rfl

/-! ### The flooder's first message -/

/-- A part of the log with a marker of a window begins with a `FLOODER_START`. -/
theorem first_marker {messages : List (Bytes 6)} {cs : List Bool}
    (hrecorded : log.filterMap LogLine.marker = messages.filterMap flooderMarker)
    (hcycles : messages <+: cs.flatMap Flooder.cycle) (hpast : past <+: log)
    (hwindow : lastOf LogLine.IsWindow past ≠ none) : .flooder .flooderStart ∈ past := by
  have hmarkers : past.filterMap LogLine.marker
      <+: (cs.flatMap Flooder.cycle).filterMap flooderMarker := by
    have hlog := hpast.filterMap LogLine.marker
    rw [hrecorded] at hlog
    exact hlog.trans (hcycles.filterMap flooderMarker)
  -- the past has some marker
  have hne : past.filterMap LogLine.marker ≠ [] := by
    intro hnil
    apply hwindow
    rw [lastOf_eq_none]
    rintro line hline (rfl | rfl)
    · exact absurd (List.filterMap_eq_nil_iff.mp hnil _ hline) (by decide)
    · exact absurd (List.filterMap_eq_nil_iff.mp hnil _ hline) (by decide)
  -- and the first one is that of the first cycle
  have hstart : FlooderMarker.flooderStart ∈ past.filterMap LogLine.marker := by
    cases cs with
    | nil => exact absurd (List.prefix_nil.mp hmarkers) hne
    | cons c cs =>
      obtain ⟨marker, markers, hcons⟩ := List.exists_cons_of_ne_nil hne
      have hhead : ((c :: cs).flatMap Flooder.cycle).filterMap flooderMarker
          = .flooderStart :: (((c :: cs).flatMap Flooder.cycle).tail).filterMap flooderMarker := rfl
      rw [hcons, hhead] at hmarkers
      rw [hcons, (List.cons_prefix_cons.mp hmarkers).1]
      exact List.mem_cons_self
  obtain ⟨line, hline, hmarker⟩ := List.mem_filterMap.mp hstart
  cases line with
  | flooder marker => exact Option.some.inj hmarker ▸ hline
  | requestStart nsec | requestEnd nsec => exact absurd hmarker (by simp [LogLine.marker])

/-- **Classification.**  The messages of a run of the flooder are recorded in a log in which, as in
    every log of the client, each `END` line has a `START` line in front of it.  The parser takes
    the log, and it classifies all samples right if and only if each was taken behind a
    `FLOODER_START`.  How it rounds the times does not matter. -/
theorem samples_classified_iff (fl : ℚ → ℚ) (socks : FlooderSocks) (flooderType : Int32)
    (as : List FlooderAction) {f : Flooder}
    (hrun : flooderRun.run as (.start socks flooderType) = some f) (log : List LogLine)
    (hrecorded : log.filterMap LogLine.marker = f.messages.filterMap flooderMarker)
    (hpaired : Paired log) :
    ∃ r, parseClientTimes fl (render log) = .ok r ∧
      (Classified fl log r ↔
        ∀ x ∈ occurrences LogLine.IsRequestEnd log, .flooder .flooderStart ∈ x.1) := by
  have hsound : f.Sound := Flooder.sound_invariant.run (Flooder.sound_start socks flooderType) hrun
  obtain ⟨cs, hcycles⟩ := hsound.cycle.cycles
  refine ⟨_, parseClientTimes_eq fl (wellFormed_render hpaired), ?_⟩
  rw [lines_render]
  unfold Classified
  rw [sort_with, sort_without, filter_text fl (fun past => FlooderOn past),
    filter_text fl (fun past => ¬ FlooderOn past)]
  constructor
  · rintro ⟨hwith, -⟩ x hx
    -- all samples that count as with the flooder were taken in a window
    have hlen := congrArg List.length hwith
    rw [List.length_map, List.length_map] at hlen
    have hall := of_length_filter_eq (fun y _ hy => flooderOn_text.mpr (.inl hy)) hlen.symm x hx
    obtain ⟨-, rest, hsplit⟩ := mem_occurrences.mp hx
    apply first_marker hrecorded hcycles ⟨_, hsplit.symm⟩
    intro hnone
    have hwindowed : Windowed x.1 := hall (flooderOn_text.mpr (.inr hnone))
    unfold Windowed at hwindowed
    rw [hnone] at hwindowed
    exact absurd hwindowed (by simp)
  · intro hstart
    have hiff : ∀ x ∈ occurrences LogLine.IsRequestEnd log,
        (FlooderOn (x.1.map LogLine.text) ↔ Windowed x.1) := by
      intro x hx
      rw [flooderOn_text]
      apply or_iff_left
      intro hnone
      exact lastOf_eq_none.mp hnone _ (hstart x hx) (.inl rfl)
    constructor
    · rw [List.filter_congr fun x hx => decide_eq_decide.mpr (hiff x hx)]
    · rw [List.filter_congr fun x hx => decide_eq_decide.mpr (not_congr (hiff x hx))]

/-- A log with one request in the first window and one behind it. -/
def timelyLog : List LogLine :=
  [.flooder .flooderStart, .requestStart 1000, .requestEnd 1700, .flooder .flooderEnd,
    .requestStart 2000, .requestEnd 2300, .flooder .flooderStart, .flooder .flooderControl,
    .flooder .flooderEnd]

theorem samples_classified_timely :
    ∃ r, parseClientTimes binary64 (render timelyLog) = .ok r ∧
      Classified binary64 timelyLog r := by
  obtain ⟨r, hparse, hiff⟩ :=
    samples_classified_iff binary64 ⟨3400, 1, 5⟩ 1 twoCycles rfl timelyLog (by decide) (by decide)
  exact ⟨r, hparse, hiff.mpr (by decide)⟩

/-- A log with a request in front of the first window. -/
def earlyLog : List LogLine :=
  [.requestStart 1000, .requestEnd 1300, .flooder .flooderStart, .requestStart 2000,
    .requestEnd 2700, .flooder .flooderEnd, .flooder .flooderStart, .flooder .flooderControl,
    .flooder .flooderEnd]

/-- The sample of the first request counts as one with the flooder. -/
theorem early_sample_misclassified : ∃ f r,
    flooderRun.run twoCycles (.start ⟨3400, 1, 5⟩ 1) = some f ∧
    earlyLog.filterMap LogLine.marker = f.messages.filterMap flooderMarker ∧ Paired earlyLog ∧
    parseClientTimes binary64 (render earlyLog) = .ok r ∧
    r.rttsWFlooder = [(0, 300), (binary64 (1000 / 10 ^ 9), 700)] ∧
    ¬ Classified binary64 earlyLog r := by
  refine ⟨_, ⟨[(0, 300), (binary64 (1000 / 10 ^ 9), 700)],
    [(0, 300), (binary64 (1000 / 10 ^ 9), 700)], [], [], [], []⟩,
    rfl, by decide, by decide, ?_, rfl, by decide +kernel⟩
  decide +kernel

end NetworkExperiment
