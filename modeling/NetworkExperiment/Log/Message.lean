import NetworkExperiment.Lib.CString
import NetworkExperiment.Log.Levels

namespace NetworkExperiment

open CStrings

/-!
# The line of a log message

`vlogMessage` puts the line of a message together in an array of 1024 characters, by appends that
are bounded one by one (`cmpsc311_log.c`):

* `assembleLine` / `vlogMessage` — the line and the call; a write outside the array has no result;
* `wholeLine` / `assembleLine_eq` — the strings that are appended, one after the other;
* `lineLength` — the length of the line, told by the level names and the message;
* `vlogMessage_eq` — a call that puts the line together hands it whole to `write`, or leaves the
  array;
* `vlogMessage_isSome_iff` — a call stays inside the array exactly if it gives up before it puts
  the line together, or the line is shorter than the array.

A `char` is a `Char` here: only its being `NUL` or a newline matters.
-/

/-! ### The call -/

/-- The size of the arrays, `MAX_LOG_MESSAGE_SIZE`. -/
abbrev maxLogMessageSize : ℕ := 1024

/-- The 24 characters of a time that `ctime` puts in front of a newline. -/
structure Timestamp where
  chars : List Char
  length_chars : chars.length = 24
  nul_not_mem : '\x00' ∉ chars

/-- `ctime`. -/
def Timestamp.ctime (time : Timestamp) : List Char := time.chars ++ ['\n']

/-- What the system calls of `vlogMessage` return. -/
structure LogEnvironment where
  time : Timestamp
  opened : ℤ
  written : ℤ

/-- `openLog`, with what `open` returns.  Without a name the log goes to the standard error; where
    `open` fails, the log is in error from then on. -/
def openLog (log : Log) (opened : ℤ) : Log :=
  match log.logFilename with
  | none => { log with fileHandle := 2 }
  | some _ =>
      if opened = -1 then { log with fileHandle := -1, errored := 1 }
      else { log with fileHandle := opened }

/-- The level of slot `i` is one of `lvl` and is turned on, `levelEnabled((1<<i)&lvl)`. -/
def slotEnabled (log : Log) (lvl : ULong) (i : Fin maxLogLevel) : Bool :=
  levelEnabled log (ulongOfInt (oneShl i) &&& lvl)

/-- The name of a slot. -/
def slotName (log : Log) (i : Fin maxLogLevel) : List Char :=
  ((log.descriptors i).getD "*BAD LEVEL*").toList

/-- `strncat(tbuf, src, MAX_LOG_MESSAGE_SIZE)`.  The bound is that of the array and not of the room
    that is left in it. -/
def appendToLine (tbuf src : List Char) : Option (List Char) :=
  strncat maxLogMessageSize tbuf src maxLogMessageSize

/-- The loop over the slots, which appends the names of the enabled ones. -/
def appendLevels (log : Log) (lvl : ULong) :
    List (Fin maxLogLevel) → (first : Bool) → List Char → Option (List Char)
  | [], _, tbuf => some tbuf
  | i :: is, first, tbuf =>
      if slotEnabled log lvl i then do
        let tbuf ← if !first then appendToLine tbuf ",".toList else some tbuf
        let tbuf ← appendToLine tbuf (slotName log i)
        appendLevels log lvl is false tbuf
      else appendLevels log lvl is first tbuf

/-- `vsnprintf(msg, MAX_LOG_MESSAGE_SIZE, fmt, args)`, where `formatted` is the whole output. -/
def vsnprintf (formatted : List Char) : List Char := formatted.take (maxLogMessageSize - 1)

/-- The line of a message in `tbuf`: the time, the names of the levels in brackets, the message,
    and a newline if it brings none. -/
def assembleLine (log : Log) (time : Timestamp) (lvl : ULong) (formatted : List Char) :
    Option (List Char) := do
  let tbuf ← strncpy maxLogMessageSize time.ctime maxLogMessageSize
  -- the newline of `ctime` is cut off
  let tbuf := tbuf.dropLast
  let tbuf ← appendToLine tbuf " [".toList
  let tbuf ← appendLevels log lvl (List.finRange maxLogLevel) true tbuf
  let tbuf ← appendToLine tbuf "] ".toList
  let tbuf ← appendToLine tbuf (vsnprintf formatted)
  if tbuf.getLast? ≠ some '\n' then
    appendToLine tbuf "\n".toList
  else
    return tbuf

/-- The calls of `write` for a line: its echo, if there is a handle for it, then the log itself. -/
def writes (log : Log) (line : List Char) : List (ℤ × List Char) :=
  let echo := if log.echoHandle ≠ -1 then [(log.echoHandle, line)] else []
  echo ++ [(log.fileHandle, line)]

/-- `vlogMessage`: the return code, the log, and what has been written to which handle. -/
def vlogMessage (env : LogEnvironment) (log : Log) (lvl : ULong) (formatted : List Char) :
    Option (ℤ × Log × List (ℤ × List Char)) := do
  if !levelEnabled log lvl then
    return (0, log, [])
  -- the first message opens the log
  let log := if log.fileHandle = -1 then openLog log env.opened else log
  if log.errored ≠ 0 then
    return (log.errored, log, [])
  let tbuf ← assembleLine log env.time lvl formatted
  return (env.written, log, writes log tbuf)

/-- `logMessage`, with the whole output of its format. -/
def logMessage (env : LogEnvironment) (log : Log) (lvl : ULong) (formatted : List Char) :
    Option (ℤ × Log × List (ℤ × List Char)) :=
  vlogMessage env log lvl formatted

/-! ### The pieces of the line -/

/-- The strings that the loop over the slots appends. -/
def levelPieces (log : Log) (lvl : ULong) :
    List (Fin maxLogLevel) → (first : Bool) → List (List Char)
  | [], _ => []
  | i :: is, first =>
      if slotEnabled log lvl i then
        (if first then [] else [",".toList]) ++ slotName log i :: levelPieces log lvl is false
      else levelPieces log lvl is first

/-- The message that is appended. -/
def lineMessage (formatted : List Char) : List Char := terminated (vsnprintf formatted)

/-- The newline that is appended, if the message does not end with one. -/
def lineBreak (formatted : List Char) : List Char :=
  if (lineMessage formatted).getLast? = some '\n' then [] else ['\n']

variable {log : Log} {lvl : ULong} {time : Timestamp} {formatted : List Char}

/-- The loop appends its strings one after the other. -/
theorem appendLevels_eq (is : List (Fin maxLogLevel)) (first : Bool) (tbuf : List Char) :
    appendLevels log lvl is first tbuf
      = strncatAll maxLogMessageSize maxLogMessageSize tbuf (levelPieces log lvl is first) := by
  induction is generalizing first tbuf with
  | nil => rfl
  | cons i is ih =>
    rw [appendLevels, levelPieces]
    by_cases hslot : slotEnabled log lvl i = true
    · rw [if_pos hslot, if_pos hslot]
      simp only [ih]
      cases first <;> rfl
    · rw [if_neg hslot, if_neg hslot, ih]

/-- The line up to its message, and the newline behind it. -/
theorem assembleLine_eq_bind : assembleLine log time lvl formatted =
    (strncatAll maxLogMessageSize maxLogMessageSize time.chars
      (" [".toList :: levelPieces log lvl (List.finRange maxLogLevel) true ++
        ["] ".toList, lineMessage formatted])).bind fun tbuf =>
          if tbuf.getLast? ≠ some '\n' then appendToLine tbuf "\n".toList else some tbuf := by
  have hnul : '\x00' ∉ time.ctime := by
    unfold Timestamp.ctime
    rw [List.mem_append, not_or]
    exact ⟨time.nul_not_mem, by simp⟩
  have hcopy : strncpy maxLogMessageSize time.ctime maxLogMessageSize = some time.ctime := by
    unfold strncpy
    rw [terminated_eq_self hnul, if_pos]
    refine ⟨le_rfl, ?_⟩
    rw [Timestamp.ctime, List.length_append, time.length_chars]
    decide
  have hcut : time.ctime.dropLast = time.chars := List.dropLast_concat
  -- `strncat` takes the message up to its first `NUL`
  have hpieces : ∀ tbuf, strncatAll maxLogMessageSize maxLogMessageSize tbuf
      ["] ".toList, lineMessage formatted] = (appendToLine tbuf "] ".toList).bind fun tbuf =>
        appendToLine tbuf (vsnprintf formatted) := by
    intro tbuf
    unfold lineMessage appendToLine
    simp only [strncatAll, strncat_terminated, Option.bind_fun_some]
  rw [strncatAll_append, strncatAll, assembleLine, hcopy]
  simp only [Option.bind_eq_bind, Option.bind_some, hcut, appendLevels_eq, hpieces,
    Option.bind_assoc]
  rfl

/-- The last character of the line up to its message. -/
theorem getLast?_message (front : List Char) (formatted : List Char) :
    (front ++ "] ".toList ++ lineMessage formatted).getLast? = some '\n' ↔
      (lineMessage formatted).getLast? = some '\n' := by
  rw [List.getLast?_append]
  cases (lineMessage formatted).getLast? with
  | none => simp [List.getLast?_append]
  | some c => simp

/-- The line in front of the closing bracket. -/
def lineFront (log : Log) (time : Timestamp) (lvl : ULong) : List Char :=
  time.chars ++ " [".toList ++
    (levelPieces log lvl (List.finRange maxLogLevel) true).flatMap terminated

/-- The whole line. -/
def wholeLine (log : Log) (time : Timestamp) (lvl : ULong) (formatted : List Char) : List Char :=
  lineFront log time lvl ++ "] ".toList ++ lineMessage formatted ++ lineBreak formatted

theorem terminated_lineMessage : terminated (lineMessage formatted) = lineMessage formatted :=
  terminated_eq_self (nul_not_mem_terminated _)

/-- The line is put together exactly if the array has room for the whole of it and a `NUL`. -/
theorem assembleLine_eq : assembleLine log time lvl formatted =
    if (wholeLine log time lvl formatted).length < maxLogMessageSize
    then some (wholeLine log time lvl formatted) else none := by
  have hpieces : time.chars ++ (" [".toList ::
      levelPieces log lvl (List.finRange maxLogLevel) true ++
        ["] ".toList, lineMessage formatted]).flatMap terminated
      = lineFront log time lvl ++ "] ".toList ++ lineMessage formatted := by
    have hopen : terminated " [".toList = " [".toList := by decide
    have hclose : terminated "] ".toList = "] ".toList := by decide
    rw [List.cons_append, List.flatMap_cons, List.flatMap_append, hopen]
    simp only [List.flatMap_cons, List.flatMap_nil, hclose, terminated_lineMessage,
      List.append_nil, lineFront, List.append_assoc]
  have htime : time.chars.length < maxLogMessageSize := by
    rw [time.length_chars]
    decide
  rw [assembleLine_eq_bind, strncatAll_eq le_rfl htime, hpieces]
  by_cases hfits : (lineFront log time lvl ++ "] ".toList ++ lineMessage formatted).length
      < maxLogMessageSize
  · -- only the newline is left to append
    rw [if_pos hfits, Option.bind_some]
    unfold wholeLine lineBreak
    by_cases hlast : (lineMessage formatted).getLast? = some '\n'
    · have hbreak := (getLast?_message (lineFront log time lvl) formatted).mpr hlast
      rw [if_neg (not_not.mpr hbreak), if_pos hlast, List.append_nil, if_pos hfits]
    · have hbreak := mt (getLast?_message (lineFront log time lvl) formatted).mp hlast
      rw [if_pos hbreak, if_neg hlast]
      exact strncat_eq le_rfl
  · have hnever : ¬ (wholeLine log time lvl formatted).length < maxLogMessageSize := by
      rw [wholeLine, List.length_append]
      omega
    rw [if_neg hfits, if_neg hnever, Option.bind_none]

/-! ### The length of the line -/

/-- The slots whose names are printed. -/
def enabledSlots (log : Log) (lvl : ULong) : List (Fin maxLogLevel) :=
  (List.finRange maxLogLevel).filter (slotEnabled log lvl)

/-- The length of the line: the time, the names with the commas between them in brackets, the
    message and the newline. -/
def lineLength (log : Log) (lvl : ULong) (formatted : List Char) : ℕ :=
  24 + 2 + (((enabledSlots log lvl).map fun i => (terminated (slotName log i)).length + 1).sum - 1)
    + 2 + (lineMessage formatted).length + (lineBreak formatted).length

/-- A comma stands in front of every name but the first. -/
theorem length_levelPieces (is : List (Fin maxLogLevel)) (first : Bool) :
    ((levelPieces log lvl is first).flatMap terminated).length
      = ((is.filter (slotEnabled log lvl)).map fun i =>
          (terminated (slotName log i)).length + 1).sum - if first then 1 else 0 := by
  induction is generalizing first with
  | nil => cases first <;> rfl
  | cons i is ih =>
    rw [levelPieces]
    by_cases hslot : slotEnabled log lvl i = true
    · have hcomma : (terminated ",".toList).length = 1 := by decide
      rw [if_pos hslot, List.filter_cons_of_pos hslot, List.map_cons, List.sum_cons]
      -- every name counts with a comma, and the first one saves it
      cases first with
      | true =>
        rw [if_pos rfl, if_pos rfl, List.nil_append, List.flatMap_cons, List.length_append, ih]
        simp only [Bool.false_eq_true, if_false]
        omega
      | false =>
        simp only [Bool.false_eq_true, if_false, List.cons_append, List.nil_append,
          List.flatMap_cons, List.length_append, hcomma, ih]
        omega
    · rw [if_neg hslot, List.filter_cons_of_neg hslot, ih]

theorem length_wholeLine :
    (wholeLine log time lvl formatted).length = lineLength log lvl formatted := by
  unfold wholeLine lineFront lineLength enabledSlots
  have hopen : " [".toList.length = 2 := by decide
  have hclose : "] ".toList.length = 2 := by decide
  simp only [List.length_append, time.length_chars, length_levelPieces, if_true, hopen, hclose]

/-! ### The bounds of the array -/

/-- The log as it is written to, opened if it was not. -/
def readyLog (log : Log) (opened : ℤ) : Log :=
  if log.fileHandle = -1 then openLog log opened else log

/-- Opening the log fails, or does not change whether it is in error. -/
theorem errored_readyLog (log : Log) (opened : ℤ) : (readyLog log opened).errored = 0 ↔
    log.errored = 0 ∧ (log.fileHandle = -1 → log.logFilename = none ∨ opened ≠ -1) := by
  unfold readyLog openLog
  by_cases hclosed : log.fileHandle = -1
  · rw [if_pos hclosed, and_congr_right_iff.mpr fun _ => forall_prop_of_true hclosed]
    cases hname : log.logFilename with
    | none => simp
    | some name =>
      dsimp only
      split_ifs with hfails <;> simp [hfails]
  · rw [if_neg hclosed]
    exact (and_iff_left fun h => absurd h hclosed).symm

/-- Opening the log changes no level and no name. -/
theorem lineLength_readyLog (log : Log) (opened : ℤ) :
    lineLength (readyLog log opened) lvl formatted = lineLength log lvl formatted := by
  unfold readyLog openLog
  cases log.logFilename <;> dsimp only <;> split_ifs <;> rfl

/-- The call puts a line together: the level is enabled, the log is not in error, and it is open or
    can be opened. -/
def PutsLineTogether (env : LogEnvironment) (log : Log) (lvl : ULong) : Prop :=
  levelEnabled log lvl = true ∧ log.errored = 0 ∧
    (log.fileHandle = -1 → log.logFilename = none ∨ env.opened ≠ -1)

/-- The call behind its first check. -/
theorem vlogMessage_of_enabled (env : LogEnvironment) (formatted : List Char)
    (hlevel : levelEnabled log lvl = true) : vlogMessage env log lvl formatted =
      if (readyLog log env.opened).errored ≠ 0 then
        some ((readyLog log env.opened).errored, readyLog log env.opened, [])
      else (assembleLine (readyLog log env.opened) env.time lvl formatted).bind fun tbuf =>
        some (env.written, readyLog log env.opened, writes (readyLog log env.opened) tbuf) := by
  rw [vlogMessage, hlevel]
  rfl

/-- Where a line is put together, it goes whole to `write`, or does not fit. -/
theorem vlogMessage_eq {env : LogEnvironment} (h : PutsLineTogether env log lvl)
    (formatted : List Char) : vlogMessage env log lvl formatted =
      if lineLength log lvl formatted < maxLogMessageSize then
        some (env.written, readyLog log env.opened, writes (readyLog log env.opened)
          (wholeLine (readyLog log env.opened) env.time lvl formatted))
      else none := by
  obtain ⟨hlevel, hopen⟩ := h
  rw [vlogMessage_of_enabled env formatted hlevel,
    if_neg (not_not.mpr ((errored_readyLog log env.opened).mpr hopen)), assembleLine_eq,
    length_wholeLine, lineLength_readyLog]
  split_ifs <;> rfl

/-- A log in error is not written to. -/
theorem vlogMessage_of_errored {env : LogEnvironment} (hlevel : levelEnabled log lvl = true)
    (h : ¬ PutsLineTogether env log lvl) (formatted : List Char) :
    vlogMessage env log lvl formatted
      = some ((readyLog log env.opened).errored, readyLog log env.opened, []) := by
  rw [vlogMessage_of_enabled env formatted hlevel, if_pos]
  intro herrored
  exact h ⟨hlevel, (errored_readyLog log env.opened).mp herrored⟩

/-- **The array of the line.**  A call writes nothing outside the array exactly if it puts no line
    together, or the length of the line is below the size of the array: each append is bounded by
    that size, not by the room that is left. -/
theorem vlogMessage_isSome_iff (env : LogEnvironment) (log : Log) (lvl : ULong)
    (formatted : List Char) :
    (vlogMessage env log lvl formatted).isSome ↔
      (PutsLineTogether env log lvl → lineLength log lvl formatted < maxLogMessageSize) := by
  cases hlevel : levelEnabled log lvl with
  | false =>
    -- the call gives up before it looks at the log
    refine iff_of_true ?_ fun h => absurd (hlevel.symm.trans h.1) Bool.false_ne_true
    rw [vlogMessage, hlevel]
    rfl
  | true =>
    by_cases hputs : PutsLineTogether env log lvl
    · rw [vlogMessage_eq hputs, forall_prop_of_true hputs]
      split_ifs with hfits
      · exact iff_of_true rfl hfits
      · exact iff_of_false Bool.false_ne_true hfits
    · rw [vlogMessage_of_errored hlevel hputs]
      exact iff_of_true rfl fun h => absurd h hputs

/-- The first second of the epoch. -/
def epoch : Timestamp := ⟨"Thu Jan  1 00:00:00 1970".toList, by decide, by decide⟩

/-- A message of 1023 characters does not fit behind the time and the name of its level. -/
theorem vlogMessage_long_message :
    vlogMessage ⟨epoch, 3, 1024⟩ (initializeLogWithFilehandle 1) 1 (List.replicate 1023 'a')
        = none ∧
      PutsLineTogether ⟨epoch, 3, 1024⟩ (initializeLogWithFilehandle 1) 1 := by
  exact ⟨by decide +kernel, by decide +kernel, rfl, by decide +kernel⟩

end NetworkExperiment
