import NetworkExperiment.Log.Message

namespace NetworkExperiment

open CStrings

/-!
# Messages one after the other

Some functions print a table, a message for each line of it.  Between two messages stands the log,
which the first one may have opened; a message that leaves the array of its line has no result:

* `LogTrace` — the log, and what each message has handed to `write`;
* `logText` / `logTexts` — the next message, and some messages one after the other;
* `PlainText` — a text that stands in its line as it is;
* `traceOf` — the trace of texts that are all shown whole, each behind the time of its own call;
* `logText_first` / `logText_eq` — a message is added to such a trace exactly if its line is shorter
  than the array.
-/

/-! ### Messages -/

/-- What a function that logs has done so far: the log as it stands, and what was written by each
    message. -/
structure LogTrace where
  log : Log
  /-- For each message, the calls of `write`. -/
  written : List (List (ℤ × List Char))

/-- `logMessage` for the next message; `envs k` is what the system calls of message `k` return. -/
def logText (envs : ℕ → LogEnvironment) (lvl : ULong) (text : List Char) (t : LogTrace) :
    Option LogTrace := do
  let (_, log, written) ← logMessage (envs t.written.length) t.log lvl text
  return ⟨log, t.written ++ [written]⟩

/-- The messages one after the other; one that leaves the array of its line leaves the function
    without a result. -/
def logTexts (envs : ℕ → LogEnvironment) (lvl : ULong) :
    List (List Char) → LogTrace → Option LogTrace
  | [], t => some t
  | text :: texts, t => (logText envs lvl text t).bind (logTexts envs lvl texts)

/-! ### Texts that are shown as they are -/

/-- A text without a `NUL` that does not bring its own newline: what `vlogMessage` shows is then
    the text and a newline. -/
structure PlainText (text : List Char) : Prop where
  nul_not_mem : '\x00' ∉ text
  getLast?_ne : text.getLast? ≠ some '\n'

/-- The line that shows a text. -/
def shownLine (log : Log) (time : Timestamp) (lvl : ULong) (text : List Char) : List Char :=
  lineFront log time lvl ++ "] ".toList ++ text ++ ['\n']

/-- The trace of texts that are shown: each is written in one line, behind the time at which its
    call was made. -/
def traceOf (envs : ℕ → LogEnvironment) (log : Log) (lvl : ULong) (texts : List (List Char)) :
    LogTrace where
  log := log
  written := texts.mapIdx fun k text => writes log (shownLine log (envs k).time lvl text)

variable {envs : ℕ → LogEnvironment} {env : LogEnvironment} {log : Log} {lvl : ULong}
  {time : Timestamp} {text text' : List Char} {texts done : List (List Char)} {t t' : LogTrace}

/-- Only the end of a text can spoil it. -/
theorem PlainText.append {front : List Char} (hfront : '\x00' ∉ front) (h : PlainText text)
    (hne : text ≠ []) : PlainText (front ++ text) where
  nul_not_mem := by
    rw [List.mem_append, not_or]
    exact ⟨hfront, h.nul_not_mem⟩
  getLast?_ne := by
    rw [List.getLast?_append_of_ne_nil front hne]
    exact h.getLast?_ne

/-- The array of the message holds the text as far as it has room. -/
theorem PlainText.lineMessage_eq (h : PlainText text) :
    lineMessage text = text.take (maxLogMessageSize - 1) :=
  terminated_eq_self fun hmem => h.nul_not_mem (List.mem_of_mem_take hmem)

/-- The text and its newline decide whether the line fits. -/
theorem PlainText.fits_iff (h : PlainText text) :
    lineLength log lvl text < maxLogMessageSize ↔
      lineLength log lvl [] + text.length < maxLogMessageSize := by
  -- a line without a text: its front and the newline
  have hempty : (lineMessage []).length = 0 ∧ (lineBreak []).length = 1 := by decide
  unfold lineLength
  rw [hempty.1, hempty.2, h.lineMessage_eq, List.length_take]
  by_cases hlong : maxLogMessageSize - 1 < text.length
  · -- the message alone fills the array
    exact iff_of_false (by omega) (by omega)
  · have hbreak : lineBreak text = ['\n'] := by
      unfold lineBreak
      rw [h.lineMessage_eq, List.take_of_length_le (Nat.not_lt.mp hlong), if_neg h.getLast?_ne]
    rw [hbreak, List.length_singleton, Nat.min_eq_right (Nat.not_lt.mp hlong)]
    omega

/-- A shorter text fits if a longer one does, as the front of the line has the same length. -/
theorem PlainText.fits_of_le (h : PlainText text) (h' : PlainText text')
    (hlen : text'.length ≤ text.length)
    (hfits : lineLength log lvl text < maxLogMessageSize) :
    lineLength log lvl text' < maxLogMessageSize := by
  rw [h'.fits_iff]
  rw [h.fits_iff] at hfits
  omega

/-- A line that fits shows the text whole. -/
theorem PlainText.wholeLine_eq (h : PlainText text)
    (hfits : lineLength log lvl text < maxLogMessageSize) :
    wholeLine log time lvl text = shownLine log time lvl text := by
  have hlen : text.length ≤ maxLogMessageSize - 1 := by
    have hroom := h.fits_iff.mp hfits
    omega
  have hmessage : lineMessage text = text := by
    rw [h.lineMessage_eq, List.take_of_length_le hlen]
  unfold wholeLine lineBreak shownLine
  rw [hmessage, if_neg h.getLast?_ne]

/-! ### The trace of a message more -/

/-- The log is open, at a level that is turned on: the next message writes without opening
    anything. -/
structure Log.Opened (log : Log) (lvl : ULong) : Prop where
  enabled : levelEnabled log lvl = true
  errored : log.errored = 0
  fileHandle : log.fileHandle ≠ -1

/-- Behind a message that has put its line together the log is open: it was so before, or this
    message has opened the file. -/
theorem opened_readyLog (h : PutsLineTogether env log lvl) :
    (readyLog log env.opened).Opened lvl := by
  obtain ⟨hlevel, hopen⟩ := h
  refine ⟨?_, (errored_readyLog log env.opened).mpr hopen, ?_⟩
  · have hsame : (readyLog log env.opened).logLevel = log.logLevel := by
      unfold readyLog openLog
      cases log.logFilename <;> dsimp only <;> split_ifs <;> rfl
    unfold levelEnabled at hlevel ⊢
    rwa [hsame]
  · unfold readyLog
    -- only a closed log is opened, and the file has been found
    by_cases hclosed : log.fileHandle = -1
    · have hname := hopen.2 hclosed
      rw [if_pos hclosed, openLog]
      cases hfile : log.logFilename with
      | none => exact (by decide : (2 : ℤ) ≠ -1)
      | some name =>
        rw [hfile] at hname
        have hopened : env.opened ≠ -1 := hname.resolve_left (Option.some_ne_none name)
        dsimp only
        rwa [if_neg hopened]
    · rwa [if_neg hclosed]

/-- An open log needs no opening. -/
theorem Log.Opened.readyLog_eq (h : log.Opened lvl) (opened : ℤ) : readyLog log opened = log :=
  if_neg h.fileHandle

/-- Its messages are put together, whatever the system calls return. -/
theorem Log.Opened.putsLineTogether (h : log.Opened lvl) (env : LogEnvironment) :
    PutsLineTogether env log lvl :=
  ⟨h.enabled, h.errored, fun hclosed => absurd hclosed h.fileHandle⟩

/-- A message adds an entry to the trace, whatever becomes of it. -/
theorem written_of_logText (h : logText envs lvl text t = some t') :
    ∃ written, t'.written = t.written ++ [written] := by
  unfold logText at h
  cases hcall : logMessage (envs t.written.length) t.log lvl text with
  | none =>
    rw [hcall] at h
    cases h
  | some r =>
    rw [hcall] at h
    obtain rfl := Option.some.inj h
    exact ⟨r.2.2, rfl⟩

/-- A message whose line is put together is shown whole, or leaves the array. -/
theorem logText_of_puts (h : PutsLineTogether (envs t.written.length) t.log lvl)
    (hplain : PlainText text) : logText envs lvl text t =
      if lineLength t.log lvl text < maxLogMessageSize then
        some ⟨readyLog t.log (envs t.written.length).opened, t.written ++
          [writes (readyLog t.log (envs t.written.length).opened)
            (shownLine (readyLog t.log (envs t.written.length).opened)
              (envs t.written.length).time lvl text)]⟩
      else none := by
  unfold logText logMessage
  rw [vlogMessage_eq h]
  split_ifs with hfits
  · rw [← lineLength_readyLog t.log (envs t.written.length).opened] at hfits
    rw [hplain.wholeLine_eq hfits]
    rfl
  · rfl

/-- The first message, which opens the log if it is not open.  The trace is then one of the opened
    log. -/
theorem logText_first (h : PutsLineTogether (envs 0) log lvl) (hplain : PlainText text) :
    logText envs lvl text ⟨log, []⟩ =
      if lineLength log lvl text < maxLogMessageSize then
        some (traceOf envs (readyLog log (envs 0).opened) lvl [text])
      else none :=
  @logText_of_puts envs lvl text ⟨log, []⟩ h hplain

/-- The first message of a log that is in error or cannot be opened: nothing is written, and the
    error stays. -/
theorem logText_of_errored (hlevel : levelEnabled log lvl = true)
    (h : ¬ PutsLineTogether (envs 0) log lvl) :
    logText envs lvl text ⟨log, []⟩ = some ⟨readyLog log (envs 0).opened, [[]]⟩ := by
  have hcall : logMessage (envs 0) log lvl text
      = some ((readyLog log (envs 0).opened).errored, readyLog log (envs 0).opened, []) :=
    vlogMessage_of_errored hlevel h text
  show (logMessage (envs 0) log lvl text).bind _ = _
  rw [hcall]
  rfl

/-- The next message of an open log. -/
theorem logText_eq (h : log.Opened lvl) (hplain : PlainText text) :
    logText envs lvl text (traceOf envs log lvl texts) =
      if lineLength log lvl text < maxLogMessageSize then
        some (traceOf envs log lvl (texts ++ [text]))
      else none := by
  have hcount : (traceOf envs log lvl texts).written.length = texts.length := List.length_mapIdx
  -- the line of the new text stands at the end of the trace
  have hadded : (traceOf envs log lvl (texts ++ [text])).written
      = (traceOf envs log lvl texts).written
        ++ [writes log (shownLine log (envs texts.length).time lvl text)] := List.mapIdx_concat
  have hlog : (traceOf envs log lvl texts).log = log := rfl
  rw [logText_of_puts (h.putsLineTogether _) hplain, hlog, h.readyLog_eq, hcount, ← hadded]
  rfl

/-- Messages that fit are all added, by induction on those that are left. -/
theorem logTexts_eq (h : log.Opened lvl)
    (htexts : ∀ text ∈ texts, PlainText text ∧ lineLength log lvl text < maxLogMessageSize) :
    logTexts envs lvl texts (traceOf envs log lvl done)
      = some (traceOf envs log lvl (done ++ texts)) := by
  induction texts generalizing done with
  | nil => rw [logTexts, List.append_nil]
  | cons text texts ih =>
    obtain ⟨⟨hplain, hfits⟩, htexts⟩ := List.forall_mem_cons.mp htexts
    rw [logTexts, logText_eq h hplain, if_pos hfits, Option.bind_some, ih htexts, List.append_assoc]
    rfl

end NetworkExperiment
