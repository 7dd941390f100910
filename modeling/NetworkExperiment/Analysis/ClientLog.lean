import NetworkExperiment.Analysis.ClientTimes
import NetworkExperiment.Client.Process

namespace NetworkExperiment

open LastEvents

/-!
# The client's log as the parser reads it

The lines that the client writes, as text:

* `LogLine.text` / `render` — a line, and the file;
* `lines_render` — the parser reads the lines that the client has written;
* `isStart_text` / `isEnd_text` / `isWindow_text` — it takes each for what it is;
* `wellFormed_render` — a log whose `END` lines all have a `START` line in front of them is parsed.
-/

/-! ### The text -/

/-- What `flooder_checks` writes for a marker. -/
def FlooderMarker.text : FlooderMarker → String
  | .flooderStart => "FLOODER_START\n"
  | .flooderEnd => "FLOODER_END\n"
  | .flooderControl => "FLOODER_CONTROL\n"

/-- The word that the parser knows a marker by. -/
def FlooderMarker.word : FlooderMarker → String
  | .flooderStart => "FLOODER_START"
  | .flooderEnd => "FLOODER_END"
  | .flooderControl => "FLOODER_CONTROL"

namespace LogLine

/-- A line up to its number. -/
def lead : LogLine → String
  | .requestStart _ => "START: "
  | .requestEnd _ => "END: "
  | .flooder marker => marker.text

/-- The number of a line and its newline. -/
def rest : LogLine → List Char
  | .requestStart nsec | .requestEnd nsec => ld nsec ++ ['\n']
  | .flooder _ => []

/-- A line of the log. -/
def text (line : LogLine) : List Char := line.lead.toList ++ line.rest

/-- The lines that say when a request starts and ends, and those that open and close a window. -/
def IsRequestStart : LogLine → Prop
  | .requestStart _ => True
  | _ => False

def IsRequestEnd : LogLine → Prop
  | .requestEnd _ => True
  | _ => False

def IsWindow (line : LogLine) : Prop :=
  line = .flooder .flooderStart ∨ line = .flooder .flooderEnd

instance : DecidablePred IsRequestStart
  | .requestStart _ => .isTrue trivial
  | .requestEnd _ | .flooder _ => .isFalse not_false

instance : DecidablePred IsRequestEnd
  | .requestEnd _ => .isTrue trivial
  | .requestStart _ | .flooder _ => .isFalse not_false

instance : DecidablePred IsWindow := fun _ => inferInstanceAs (Decidable (_ ∨ _))

end LogLine

/-- The log file. -/
def render (log : List LogLine) : List Char := (log.map LogLine.text).flatten

example : LogLine.text (.requestEnd (-70)) = "END: -70\n".toList := by decide

/-! ### Its lines -/

/-- No character of a number is a space: it has digits, and a sign in front if it is negative. -/
theorem isspace_ld (n : ℤ) : ∀ c ∈ ld n, isspace c = false := by
  -- a digit is none of the characters that split words
  have hdigit : ∀ c : Char, c.isDigit = true → isspace c = false := by
    intro c hc
    have hrange : 48 ≤ c.toNat ∧ c.toNat ≤ 57 := Char.isDigit_iff_toNat.mp hc
    unfold isspace
    simp only [Bool.or_eq_false_iff, Bool.and_eq_false_iff, decide_eq_false_iff_not]
    omega
  intro c hc
  unfold ld at hc
  rcases List.mem_append.mp hc with hc | hc
  · split at hc
    · rw [List.mem_singleton.mp hc]
      decide
    · exact absurd hc List.not_mem_nil
  · exact hdigit c (isDigit_toDigits _ c hc)

/-- A number has a digit. -/
theorem ld_ne_nil (n : ℤ) : ld n ≠ [] := by
  unfold ld
  intro h
  exact Nat.toDigits_ne_nil (List.append_eq_nil_iff.mp h).2

/-- A line ends with its only newline. -/
theorem text_newline (line : LogLine) : ∃ body, line.text = body ++ ['\n'] ∧ '\n' ∉ body := by
  -- the number brings no newline with it
  have hld : ∀ n, '\n' ∉ ld n := by
    intro n hn
    exact absurd (isspace_ld n _ hn) (by decide)
  cases line with
  | requestStart nsec =>
    refine ⟨"START: ".toList ++ ld nsec, (List.append_assoc ..).symm, ?_⟩
    rw [List.mem_append, not_or]
    exact ⟨by decide, hld nsec⟩
  | requestEnd nsec =>
    refine ⟨"END: ".toList ++ ld nsec, (List.append_assoc ..).symm, ?_⟩
    rw [List.mem_append, not_or]
    exact ⟨by decide, hld nsec⟩
  | flooder marker =>
    cases marker with
    | flooderStart => exact ⟨"FLOODER_START".toList, by decide, by decide⟩
    | flooderEnd => exact ⟨"FLOODER_END".toList, by decide, by decide⟩
    | flooderControl => exact ⟨"FLOODER_CONTROL".toList, by decide, by decide⟩

/-- The parser reads the lines that the client has written, as each of them has its newline at the
    end only. -/
theorem lines_render (log : List LogLine) : lines (render log) = log.map LogLine.text := by
  apply lines_flatten
  intro l hl
  obtain ⟨line, -, rfl⟩ := List.mem_map.mp hl
  exact text_newline line

/-- The number on a line of the main thread: it is the second word, behind the blank of the
    format. -/
theorem number_text {line : LogLine} (h : line.IsRequestStart ∨ line.IsRequestEnd) :
    ∃ nsec : ℤ, number line.text = some (nsec : ℚ) := by
  -- a word, a blank and a number
  have hword : ∀ (w : List Char) (nsec : ℤ), (∀ a ∈ w, isspace a = false) → w ≠ [] →
      number (w ++ ' ' :: (ld nsec ++ ['\n'])) = some (nsec : ℚ) := by
    intro w nsec hw hne
    unfold number
    rw [split_two_words hw hne (isspace_ld nsec) (ld_ne_nil nsec)]
    exact decimal_ld nsec
  have hstart : "START: ".toList = "START:".toList ++ [' '] := by decide
  have hend : "END: ".toList = "END:".toList ++ [' '] := by decide
  cases line with
  | requestStart nsec =>
    refine ⟨nsec, ?_⟩
    show number ("START: ".toList ++ (ld nsec ++ ['\n'])) = _
    rw [hstart, List.append_assoc]
    exact hword _ nsec (by simp [isspace]) (by decide)
  | requestEnd nsec =>
    refine ⟨nsec, ?_⟩
    show number ("END: ".toList ++ (ld nsec ++ ['\n'])) = _
    rw [hend, List.append_assoc]
    exact hword _ nsec (by simp [isspace]) (by decide)
  | flooder marker => exact absurd h (by simp [LogLine.IsRequestStart, LogLine.IsRequestEnd])

/-! ### Their kinds -/

section Kinds

variable (nsec : ℤ) (line : LogLine)

/-- The two formats of the main thread. -/
theorem startswith_requestStart : startswith (LogLine.requestStart nsec).text "START: " :=
  List.prefix_append _ _

theorem startswith_requestEnd : startswith (LogLine.requestEnd nsec).text "END: " :=
  List.prefix_append _ _

/-- A line is taken for a `START` line exactly if it is one, -/
theorem isStart_text : IsStart line.text ↔ line.IsRequestStart := by
  cases line with
  | requestStart nsec =>
    have hstart : "START".toList <+: "START: ".toList := by decide
    exact iff_of_true (hstart.trans (startswith_requestStart nsec)) trivial
  | requestEnd nsec =>
    exact iff_of_false (not_startswith (startswith_requestEnd nsec) (by decide) (by decide))
      not_false
  | flooder marker => cases marker <;> decide

/-- and for an `END` line exactly if it is one. -/
theorem isEnd_text : IsEnd line.text ↔ line.IsRequestEnd := by
  cases line with
  | requestStart nsec =>
    exact iff_of_false (not_startswith (startswith_requestStart nsec) (by decide) (by decide))
      not_false
  | requestEnd nsec =>
    have hend : "END".toList <+: "END: ".toList := by decide
    exact iff_of_true (hend.trans (startswith_requestEnd nsec)) trivial
  | flooder marker => cases marker <;> decide

/-- Exactly the line of a marker starts with its word. -/
theorem startswith_marker (m : FlooderMarker) :
    startswith line.text m.word ↔ line = .flooder m := by
  -- neither format of the main thread starts with the word, nor the word with one of them
  have hstart : ¬ "START: ".toList <+: m.word.toList ∧ ¬ m.word.toList <+: "START: ".toList := by
    cases m <;> decide
  have hend : ¬ "END: ".toList <+: m.word.toList ∧ ¬ m.word.toList <+: "END: ".toList := by
    cases m <;> decide
  cases line with
  | requestStart nsec =>
    exact iff_of_false (not_startswith (startswith_requestStart nsec) hstart.1 hstart.2) (by simp)
  | requestEnd nsec =>
    exact iff_of_false (not_startswith (startswith_requestEnd nsec) hend.1 hend.2) (by simp)
  | flooder marker => cases m <;> cases marker <;> decide

/-- So it is with the lines of the windows. -/
theorem isWindow_text : IsWindow line.text ↔ line.IsWindow :=
  or_congr (startswith_marker line .flooderStart) (startswith_marker line .flooderEnd)

end Kinds

/-! ### Its log can be parsed -/

/-- The lines that end a request all have one that starts it in front of them. -/
def Paired (log : List LogLine) : Prop :=
  ∀ x ∈ occurrences LogLine.IsRequestEnd log, ∃ line ∈ x.1, line.IsRequestStart

instance (log : List LogLine) : Decidable (Paired log) :=
  inferInstanceAs (Decidable (∀ _ ∈ _, ∃ _ ∈ _, _))

/-- A log whose `END` lines all have a `START` line in front of them is parsed. -/
theorem wellFormed_render {log : List LogLine} (h : Paired log) :
    WellFormed (lines (render log)) := by
  rw [lines_render]
  constructor
  · intro l hl hkind
    obtain ⟨line, -, rfl⟩ := List.mem_map.mp hl
    rw [isStart_text, isEnd_text] at hkind
    obtain ⟨nsec, hnsec⟩ := number_text hkind
    exact ⟨nsec, hnsec⟩
  · intro x hx
    rw [occurrences_map isEnd_text] at hx
    obtain ⟨y, hy, rfl⟩ := List.mem_map.mp hx
    obtain ⟨line, hline, hstart⟩ := h y hy
    exact ⟨line.text, List.mem_map.mpr ⟨line, hline, rfl⟩, (isStart_text line).mpr hstart⟩

end NetworkExperiment
