import Mathlib.Data.List.FinRange
import NetworkExperiment.Lib.ActionSystem
import NetworkExperiment.Lib.FlagMask
import NetworkExperiment.Lib.LastEvent

namespace NetworkExperiment

open ActionSystems FlagMasks LastEvents

/-!
# Log levels

The levels of the message log (`cmpsc311_log.c`).  A level is a word with one bit, and the log
keeps the word of the levels that are turned on, with a descriptor for each of 32 levels:

* `registerLogLevel`, `enableLogLevels`, `disableLogLevels`, `levelEnabled` — the operations;
* `logCalls` — their runs on registered levels, with the history of what was turned on and off;
* `Slots` / `registered_invariant` — the levels that have been registered fill the table from its
  start;
* `Bits` / `bits_invariant` — below the last slot, each level has a bit of its own, which the last
  operation that mentioned the level has decided;
* `levelsFormSet_iff` — the levels form a set exactly as long as the last slot is free: there the
  level is computed as a negative `int`, which is extended to 33 bits of an `unsigned long`.
-/

/-! ### The log -/

/-- `unsigned long`. -/
abbrev ULong := BitVec 64

/-- The number of levels, `MAX_LOG_LEVEL`. -/
abbrev maxLogLevel : ℕ := 32

/-- The globals of the log. -/
structure Log where
  /-- The levels that are turned on. -/
  logLevel : ULong
  /-- The descriptor of each level, `NULL` for one that is not in use. -/
  descriptors : Fin maxLogLevel → Option String
  /-- `NULL` before the log is initialised. -/
  logFilename : Option String
  fileHandle : ℤ
  echoHandle : ℤ
  errored : ℤ

/-- The conversion of an `int` to `unsigned long`: a negative one is filled up with ones. -/
def ulongOfInt (x : BitVec 32) : ULong := x.signExtend 64

/-- `1<<i`, an `int`: negative for the last of its bits. -/
def oneShl (i : ℕ) : BitVec 32 := 1#32 <<< i

/-- `enableLogLevels`. -/
def enableLogLevels (log : Log) (lvl : ULong) : Log := { log with logLevel := log.logLevel ||| lvl }

/-- `disableLogLevels`.  The constant `0xffffffff` is an `unsigned int`, so the complement is taken
    of the lower 32 bits only. -/
def disableLogLevels (log : Log) (lvl : ULong) : Log :=
  { log with logLevel := log.logLevel &&& (lvl ^^^ 0xffffffff#64) }

/-- `levelEnabled`: at least one of the levels is turned on. -/
def levelEnabled (log : Log) (lvl : ULong) : Bool := log.logLevel &&& lvl != 0

/-- The first level of the table that is not in use. -/
def freeSlot (log : Log) : Option (Fin maxLogLevel) :=
  (List.finRange maxLogLevel).find? fun i => (log.descriptors i).isNone

/-- `registerLogLevel`: the level, or `-1` if the table is full, and the log afterwards. -/
def registerLogLevel (log : Log) (descriptor : String) (enable : ℤ) : ULong × Log :=
  match freeSlot log with
  | some i =>
      -- negative in the last slot, and extended by ones
      let lvl := ulongOfInt (oneShl i)
      let log := if enable ≠ 0 then enableLogLevels log lvl else log
      (lvl, { log with descriptors := Function.update log.descriptors i (some descriptor) })
  | none => (ulongOfInt (-1), log)

/-- `LOG_ERROR_LEVEL`. -/
abbrev logErrorLevel : ULong := 1

/-- `LOG_ERROR_LEVEL|LOG_WARNING_LEVEL|LOG_OUTPUT_LEVEL`. -/
def defaultLogLevel : ULong := 1 ||| 2 ||| 8

/-- The calls that register the default levels. -/
def registerDefaultLevels (log : Log) : Log :=
  let log := (registerLogLevel log "ERROR" 1).2
  let log := (registerLogLevel log "WARNING" 1).2
  let log := (registerLogLevel log "INFO" 0).2
  (registerLogLevel log "OUTPUT" 1).2

/-- `initializeLogWithFilename`: the name is copied, or the default name is taken; the file is not
    opened before the first message. -/
def initializeLogWithFilename (logname : Option String) : Log :=
  registerDefaultLevels
    { logLevel := defaultLogLevel
      descriptors := fun _ => none
      logFilename := some (logname.getD "cmpsc311.log")
      fileHandle := -1
      echoHandle := -1
      errored := 0 }

/-- `initializeLogWithFilehandle`: the handle is open already; the name is used
    only where it is `-1`. -/
def initializeLogWithFilehandle (out : ℤ) : Log :=
  registerDefaultLevels
    { logLevel := defaultLogLevel
      descriptors := fun _ => none
      logFilename := some "cmpsc311.log"
      fileHandle := out
      echoHandle := -1
      errored := 0 }

/-! ### Runs on registered levels -/

/-- What happens to the levels. -/
inductive LogEvent where
  | registered (lvl : ULong) (on : Bool)
  | enabled (lvls : List ULong)
  | disabled (lvls : List ULong)
  deriving DecidableEq

/-- The levels that the event mentions. -/
def LogEvent.levels : LogEvent → List ULong
  | .registered lvl _ => [lvl]
  | .enabled lvls => lvls
  | .disabled lvls => lvls

/-- Whether the event turns them on. -/
def LogEvent.turnsOn : LogEvent → Bool
  | .registered _ on => on
  | .enabled _ => true
  | .disabled _ => false

/-- The level that the event registers. -/
def LogEvent.newLevel? : LogEvent → Option ULong
  | .registered lvl _ => some lvl
  | _ => none

/-- The last event that mentioned the level turned it on. -/
def turnedOn (lvl : ULong) (history : List LogEvent) : Bool :=
  (lastOf (lvl ∈ LogEvent.levels ·) history).any (·.turnsOn)

/-- The log together with what has happened to its levels. -/
structure LogRun where
  log : Log
  history : List LogEvent

/-- The levels that have been registered, in their order. -/
def LogRun.levels (s : LogRun) : List ULong := s.history.filterMap (·.newLevel?)

/-- The log after its initialisation, which has registered the four default levels. -/
def LogRun.opened (log : Log) : LogRun where
  log := log
  history := [.registered 1 true, .registered 2 true, .registered 4 false, .registered 8 true]

/-- A call of one of the three operations; the last two are given a union of levels. -/
inductive LogCall where
  | register (descriptor : String) (enable : ℤ)
  | enable (lvls : List ULong)
  | disable (lvls : List ULong)

/-- The calls whose arguments are unions of registered levels, while the table is not full. -/
def logCalls : ActionSystem LogRun LogCall where
  act s
    | .register descriptor enable =>
        if s.levels.length < maxLogLevel then
          let (lvl, log) := registerLogLevel s.log descriptor enable
          some ⟨log, s.history ++ [.registered lvl (enable ≠ 0)]⟩
        else none
    | .enable lvls =>
        if lvls ⊆ s.levels then
          some ⟨enableLogLevels s.log (union lvls), s.history ++ [.enabled lvls]⟩
        else none
    | .disable lvls =>
        if lvls ⊆ s.levels then
          some ⟨disableLogLevels s.log (union lvls), s.history ++ [.disabled lvls]⟩
        else none

/-- The call registers a level. -/
def LogCall.registers : LogCall → Bool
  | .register _ _ => true
  | _ => false

variable {log : Log} {s t : LogRun} {lvl : ULong} {k i : ℕ}

/-- An event that mentions the level decides, any other changes nothing. -/
theorem turnedOn_concat (history : List LogEvent) (e : LogEvent) :
    turnedOn lvl (history ++ [e])
      = if lvl ∈ e.levels then e.turnsOn else turnedOn lvl history := by
  unfold turnedOn
  by_cases hmem : lvl ∈ e.levels
  · rw [lastOf_concat_pos history hmem, if_pos hmem]
    rfl
  · rw [lastOf_concat_neg history hmem, if_neg hmem]

/-! ### The table of descriptors -/

/-- The level of slot `i`. -/
def levelOf (i : ℕ) : ULong := ulongOfInt (oneShl i)

/-- The first `k` slots of the table are in use. -/
def Slots (k : ℕ) (log : Log) : Prop :=
  ∀ i : Fin maxLogLevel, (log.descriptors i).isSome = true ↔ i.val < k

/-- The first free slot is the next one. -/
theorem freeSlot_eq (h : Slots k log) (hk : k < maxLogLevel) : freeSlot log = some ⟨k, hk⟩ := by
  unfold freeSlot
  rw [List.find?_eq_some_iff_getElem]
  have hnone : ∀ i : Fin maxLogLevel, (log.descriptors i).isNone = true ↔ k ≤ i.val := by
    intro i
    rw [← Nat.not_lt, ← h i]
    simp
  refine ⟨(hnone _).mpr le_rfl, k, by simpa using hk, by simp, ?_⟩
  intro j hj
  have hused := (h ⟨j, hj.trans hk⟩).mpr hj
  simpa using hused

/-- A registration takes the next slot, with the level of that slot. -/
theorem registerLogLevel_eq (h : Slots k log) (hk : k < maxLogLevel) (descriptor : String)
    (enable : ℤ) :
    (registerLogLevel log descriptor enable).1 = levelOf k ∧
      Slots (k + 1) (registerLogLevel log descriptor enable).2 ∧
      (registerLogLevel log descriptor enable).2.logLevel
        = if enable ≠ 0 then log.logLevel ||| levelOf k else log.logLevel := by
  unfold registerLogLevel
  rw [freeSlot_eq h hk]
  refine ⟨rfl, ?_, ?_⟩
  · intro i
    by_cases hi : i = ⟨k, hk⟩
    · -- the slot that is taken
      subst hi
      simp
    · -- whether the level is turned on does not matter for the other slots
      have hne : i.val ≠ k := fun heq => hi (Fin.ext heq)
      have hold : (log.descriptors i).isSome = true ↔ i.val < k := h i
      have hsame : ∀ log' : Log, log'.descriptors = log.descriptors →
          (Function.update log'.descriptors ⟨k, hk⟩ (some descriptor) i).isSome
            = (log.descriptors i).isSome := by
        intro log' hlog'
        rw [hlog', Function.update_of_ne hi]
      dsimp only
      rw [hsame _ (by split_ifs <;> rfl), hold]
      omega
  · dsimp only
    split_ifs <;> rfl

/-! ### The registered levels -/

/-- The registered levels are those of the first slots, which are in use. -/
structure Registered (s : LogRun) : Prop where
  slots : Slots s.levels.length s.log
  levels_eq : s.levels = (List.range s.levels.length).map levelOf

/-- The levels behind one more event. -/
theorem levels_concat (log : Log) (history : List LogEvent) (e : LogEvent) :
    LogRun.levels ⟨log, history ++ [e]⟩
      = history.filterMap (·.newLevel?) ++ e.newLevel?.toList := by
  unfold LogRun.levels
  rw [List.filterMap_append]
  rfl

/-- An event that registers nothing leaves them. -/
theorem levels_concat_same (log : Log) (s : LogRun) {e : LogEvent} (h : e.newLevel? = none) :
    LogRun.levels ⟨log, s.history ++ [e]⟩ = s.levels := by
  rw [levels_concat, h]
  exact List.append_nil _

/-- What a call can do: it registers the next level, or it turns registered levels on or off. -/
theorem logCalls_cases (h : Registered s) {c : LogCall} (hact : logCalls.act s c = some t) :
    (∃ descriptor enable, c = .register descriptor enable ∧ s.levels.length < maxLogLevel ∧
      t.levels = s.levels ++ [levelOf s.levels.length] ∧ Slots (s.levels.length + 1) t.log ∧
      t.history = s.history ++ [.registered (levelOf s.levels.length) (enable ≠ 0)] ∧
      t.log.logLevel = if enable ≠ 0 then s.log.logLevel ||| levelOf s.levels.length
        else s.log.logLevel) ∨
    (∃ lvls, c = .enable lvls ∧ lvls ⊆ s.levels ∧ t.levels = s.levels ∧
      t = ⟨enableLogLevels s.log (union lvls), s.history ++ [.enabled lvls]⟩) ∨
    (∃ lvls, c = .disable lvls ∧ lvls ⊆ s.levels ∧ t.levels = s.levels ∧
      t = ⟨disableLogLevels s.log (union lvls), s.history ++ [.disabled lvls]⟩) := by
  cases c with
  | register descriptor enable =>
    left
    simp only [logCalls] at hact
    split_ifs at hact with hroom
    obtain ⟨hlvl, hslots, hlevel⟩ := registerLogLevel_eq h.slots hroom descriptor enable
    obtain rfl := Option.some.inj hact
    refine ⟨descriptor, enable, rfl, hroom, ?_, hslots, ?_, hlevel⟩
    · rw [levels_concat, ← hlvl]
      rfl
    · rw [← hlvl]
  | enable lvls =>
    right; left
    simp only [logCalls] at hact
    split_ifs at hact with hsub
    obtain rfl := Option.some.inj hact
    exact ⟨lvls, rfl, hsub, levels_concat_same _ s rfl, rfl⟩
  | disable lvls =>
    right; right
    simp only [logCalls] at hact
    split_ifs at hact with hsub
    obtain rfl := Option.some.inj hact
    exact ⟨lvls, rfl, hsub, levels_concat_same _ s rfl, rfl⟩

/-- Every call keeps the registered levels in the first slots. -/
theorem registered_invariant : logCalls.Invariant Registered := by
  intro s c t h hact
  rcases logCalls_cases h hact with
    ⟨descriptor, enable, -, -, hlevels, hslots, -, -⟩ | ⟨lvls, -, -, hlevels, rfl⟩ |
      ⟨lvls, -, -, hlevels, rfl⟩
  · constructor
    · rw [hlevels, List.length_append]
      exact hslots
    · rw [hlevels, List.length_append, List.length_singleton, List.range_succ, List.map_append,
        ← h.levels_eq]
      rfl
  · exact ⟨by rw [hlevels]; exact h.slots, by rw [hlevels]; exact h.levels_eq⟩
  · exact ⟨by rw [hlevels]; exact h.slots, by rw [hlevels]; exact h.levels_eq⟩

/-- The table of an empty log. -/
theorem slots_zero (h : ∀ i, log.descriptors i = none) : Slots 0 log := by
  intro i
  rw [h i]
  exact iff_of_false Bool.false_ne_true (Nat.not_lt_zero _)

/-- The default levels take the first four slots, and leave the default levels turned on. -/
theorem registerDefaultLevels_eq (h : Slots 0 log) (hlevel : log.logLevel = defaultLogLevel) :
    Slots 4 (registerDefaultLevels log) ∧
      (registerDefaultLevels log).logLevel = defaultLogLevel := by
  obtain ⟨-, h₁, hlevel₁⟩ := registerLogLevel_eq h (by decide) "ERROR" 1
  obtain ⟨-, h₂, hlevel₂⟩ := registerLogLevel_eq h₁ (by decide) "WARNING" 1
  obtain ⟨-, h₃, hlevel₃⟩ := registerLogLevel_eq h₂ (by decide) "INFO" 0
  obtain ⟨-, h₄, hlevel₄⟩ := registerLogLevel_eq h₃ (by decide) "OUTPUT" 1
  refine ⟨h₄, ?_⟩
  unfold registerDefaultLevels
  dsimp only
  rw [hlevel₄, hlevel₃, hlevel₂, hlevel₁, hlevel]
  decide

/-- The two ways to initialise the log. -/
inductive Initialized : Log → Prop
  | filename (logname : Option String) : Initialized (initializeLogWithFilename logname)
  | filehandle (out : ℤ) : Initialized (initializeLogWithFilehandle out)

@[simp] theorem levels_opened : (LogRun.opened log).levels = [1, 2, 4, 8] := rfl

theorem Initialized.registered (h : Initialized log) :
    Registered (.opened log) ∧ log.logLevel = defaultLogLevel := by
  have hopened : Slots 4 log ∧ log.logLevel = defaultLogLevel := by
    cases h with
    | filename logname => exact registerDefaultLevels_eq (slots_zero fun _ => rfl) rfl
    | filehandle out => exact registerDefaultLevels_eq (slots_zero fun _ => rfl) rfl
  refine ⟨⟨hopened.1, ?_⟩, hopened.2⟩
  rw [levels_opened]
  decide

/-- Each registration adds one level. -/
theorem length_levels_history :
    logCalls.History fun calls s =>
      Registered s ∧ s.levels.length = 4 + calls.countP LogCall.registers := by
  intro calls s c t h hact
  refine ⟨registered_invariant h.1 hact, ?_⟩
  rw [List.countP_append]
  rcases logCalls_cases h.1 hact with
    ⟨descriptor, enable, rfl, -, hlevels, -⟩ | ⟨lvls, rfl, -, hlevels, -⟩ |
      ⟨lvls, rfl, -, hlevels, -⟩
  · rw [hlevels, List.length_append, h.2]
    rfl
  · rw [hlevels, h.2]
    rfl
  · rw [hlevels, h.2]
    rfl

/-! ### The bits of the levels -/

/-- Below the last slot a level has one bit. -/
theorem levelOf_eq (hi : i < 31) : levelOf i = BitVec.twoPow 64 i := by
  have hall : ∀ i : Fin 31, levelOf i = BitVec.twoPow 64 i := by decide
  exact hall ⟨i, hi⟩

/-- The level of the last slot has 33 bits. -/
theorem levelOf_last_not_single : ¬ ∃ i < 64, levelOf 31 = BitVec.twoPow 64 i := by
  rintro ⟨i, -, hi⟩
  have hlow : (levelOf 31).getLsbD 31 = true := by decide
  have hhigh : (levelOf 31).getLsbD 32 = true := by decide
  rw [hi, getLsbD_twoPow_iff] at hlow hhigh
  omega

/-- While the last slot is free, the registered levels are the first flags. -/
theorem Registered.flags (h : Registered s) (hlast : s.levels.length ≤ 31) :
    s.levels = (List.range s.levels.length).map (BitVec.twoPow 64) := by
  rw [h.levels_eq, List.length_map, List.length_range]
  apply List.map_congr_left
  intro i hi
  exact levelOf_eq ((List.mem_range.mp hi).trans_le hlast)

/-- Which of the first flags are registered. -/
theorem Registered.mem_flags_iff (h : Registered s) (hlast : s.levels.length ≤ 31)
    (hi : i < 64) : BitVec.twoPow 64 i ∈ s.levels ↔ i < s.levels.length := by
  constructor
  · intro hmem
    rw [h.flags hlast] at hmem
    obtain ⟨j, hj, hji⟩ := List.mem_map.mp hmem
    rw [← twoPow_inj hi hji.symm] at hj
    exact List.mem_range.mp hj
  · intro hlt
    rw [h.flags hlast]
    exact List.mem_map.mpr ⟨i, List.mem_range.mpr hlt, rfl⟩

/-- Each bit of the mask tells whether its level is turned on; the bits of levels that have not
    been registered are clear. -/
structure Bits (s : LogRun) : Prop where
  on : ∀ i < s.levels.length,
    s.log.logLevel.getLsbD i = turnedOn (BitVec.twoPow 64 i) s.history
  off : ∀ i, s.levels.length ≤ i → s.log.logLevel.getLsbD i = false

theorem bits_opened (h : log.logLevel = defaultLogLevel) : Bits (.opened log) := by
  have hon : ∀ i < 4, defaultLogLevel.getLsbD i
      = turnedOn (BitVec.twoPow 64 i) (LogRun.opened log).history := by
    have hall : ∀ i < 4, defaultLogLevel.getLsbD i = turnedOn (BitVec.twoPow 64 i)
      [.registered 1 true, .registered 2 true, .registered 4 false, .registered 8 true] := by decide
    exact hall
  -- the default levels are less than `2 ^ 4`
  have hoff : ∀ i, 4 ≤ i → defaultLogLevel.getLsbD i = false := by
    intro i hi
    have hlt : defaultLogLevel.toNat < 2 ^ 4 := by decide
    exact Nat.testBit_lt_two_pow (hlt.trans_le (Nat.pow_le_pow_right Nat.two_pos hi))
  constructor
  · rw [levels_opened]
    intro i hi
    exact (congrArg (·.getLsbD i) h).trans (hon i hi)
  · rw [levels_opened]
    intro i hi
    exact (congrArg (·.getLsbD i) h).trans (hoff i hi)

/-- A new level has a bit of its own. -/
theorem Bits.register (h : Bits s) (hlast : s.levels.length < 31) {on : Bool}
    (hlevels : t.levels = s.levels ++ [levelOf s.levels.length])
    (hhistory : t.history = s.history ++ [.registered (levelOf s.levels.length) on])
    (hlevel : t.log.logLevel
      = if on then s.log.logLevel ||| levelOf s.levels.length else s.log.logLevel) : Bits t := by
  rw [levelOf_eq hlast] at hlevels hhistory hlevel
  have hbit : ∀ i, t.log.logLevel.getLsbD i
      = (s.log.logLevel.getLsbD i || (on && decide (s.levels.length = i))) := by
    intro i
    rw [hlevel]
    cases on with
    | true =>
      rw [if_pos rfl, BitVec.getLsbD_or, BitVec.getLsbD_twoPow]
      simp [show s.levels.length < 64 by omega]
    | false => simp
  have hlen : t.levels.length = s.levels.length + 1 := by rw [hlevels, List.length_append]; rfl
  constructor
  · intro i hi
    rw [hlen] at hi
    rw [hbit, hhistory, turnedOn_concat]
    rcases Nat.lt_succ_iff_lt_or_eq.mp hi with hlt | rfl
    · -- the event does not mention the levels before
      have hne : s.levels.length ≠ i := hlt.ne'
      have hmem : BitVec.twoPow 64 i ∉ [BitVec.twoPow 64 s.levels.length] := by
        intro hmem
        exact hne (twoPow_inj (by omega) (List.mem_singleton.mp hmem).symm)
      rw [h.on i hlt, LogEvent.levels, if_neg hmem]
      simp [hne]
    · -- the bit of the new level was clear
      rw [h.off _ le_rfl, LogEvent.levels, if_pos (List.mem_singleton_self _)]
      simp [LogEvent.turnsOn]
  · intro i hi
    rw [hlen] at hi
    rw [hbit, h.off i (by omega)]
    simp [show s.levels.length ≠ i by omega]

/-- Turning registered levels on or off sets or clears their bits. -/
theorem Bits.mask (h : Bits s) (hreg : Registered s) (hlast : s.levels.length ≤ 31)
    {lvls : List ULong} (hsub : lvls ⊆ s.levels) {log : Log} {e : LogEvent} (he : e.levels = lvls)
    (hlevels : LogRun.levels ⟨log, s.history ++ [e]⟩ = s.levels)
    (hlevel : ∀ i < 64, log.logLevel.getLsbD i
      = if BitVec.twoPow 64 i ∈ lvls then e.turnsOn else s.log.logLevel.getLsbD i) :
    Bits ⟨log, s.history ++ [e]⟩ := by
  constructor
  · intro i hi
    rw [hlevels] at hi
    dsimp only
    rw [turnedOn_concat, he, hlevel i (by omega), h.on i hi]
  · intro i hi
    rw [hlevels] at hi
    dsimp only
    by_cases hword : i < 64
    · have hmem : BitVec.twoPow 64 i ∉ lvls := by
        intro hmem
        have hlt := (hreg.mem_flags_iff hlast hword).mp (hsub hmem)
        omega
      rw [hlevel i hword, if_neg hmem, h.off i hi]
    · exact BitVec.getLsbD_of_ge _ _ (Nat.not_lt.mp hword)

/-- While the last slot is free, the bits follow the history. -/
theorem bits_invariant :
    logCalls.Invariant fun s => Registered s ∧ (s.levels.length ≤ 31 → Bits s) := by
  intro s c t h hact
  obtain ⟨hreg, hbits⟩ := h
  refine ⟨registered_invariant hreg hact, ?_⟩
  intro hlast
  rcases logCalls_cases hreg hact with
    ⟨descriptor, enable, -, -, hlevels, -, hhistory, hlevel⟩ | ⟨lvls, -, hsub, hlevels, rfl⟩ |
      ⟨lvls, -, hsub, hlevels, rfl⟩
  · have hlen : t.levels.length = s.levels.length + 1 := by
      rw [hlevels, List.length_append]
      rfl
    refine (hbits (by omega)).register (by omega) hlevels hhistory ?_
    rw [hlevel]
    by_cases henable : enable ≠ 0
    · rw [if_pos henable, if_pos (decide_eq_true henable)]
    · rw [if_neg henable, if_neg (by simpa using henable)]
  · rw [hlevels] at hlast
    refine (hbits hlast).mask hreg hlast hsub rfl hlevels ?_
    intro i hi
    have hunion := getLsbD_union_flags ((hreg.flags hlast) ▸ hsub) hi
    show (s.log.logLevel ||| union lvls).getLsbD i = _
    rw [BitVec.getLsbD_or, hunion]
    by_cases hmem : BitVec.twoPow 64 i ∈ lvls <;> simp [hmem, LogEvent.turnsOn]
  · -- the complement has 32 bits, so the upper half of the mask is cleared as a whole
    rw [hlevels] at hlast
    refine (hbits hlast).mask hreg hlast hsub rfl hlevels ?_
    intro i hi
    have hunion := getLsbD_union_flags ((hreg.flags hlast) ▸ hsub) hi
    show (s.log.logLevel &&& (union lvls ^^^ 0xffffffff#64)).getLsbD i = _
    rw [BitVec.getLsbD_and, BitVec.getLsbD_xor, hunion]
    by_cases hslot : i < s.levels.length
    · -- a registered level lies in the low half, where the constant has its ones
      have hones : ∀ i < 32, (0xffffffff#64).getLsbD i = true := by decide
      rw [hones i (by omega)]
      by_cases hmem : BitVec.twoPow 64 i ∈ lvls <;> simp [hmem, LogEvent.turnsOn]
    · have hmem : BitVec.twoPow 64 i ∉ lvls :=
        fun hmem => hslot ((hreg.mem_flags_iff hlast hi).mp (hsub hmem))
      rw [if_neg hmem, (hbits hlast).off i (Nat.not_lt.mp hslot), Bool.false_and]

/-! ### Levels as a set -/

/-- The levels form a set: they are different single bits, and a level is enabled if the last
    operation that mentioned it turned it on. -/
structure LevelSet (s : LogRun) : Prop where
  single : ∀ lvl ∈ s.levels, ∃ i < 64, lvl = BitVec.twoPow 64 i
  distinct : s.levels.Nodup
  enabled_iff : ∀ lvl ∈ s.levels, levelEnabled s.log lvl = turnedOn lvl s.history

/-- While the last slot is free, the levels form a set. -/
theorem levelSet_of_bits (hreg : Registered s) (hlast : s.levels.length ≤ 31) (h : Bits s) :
    LevelSet s := by
  have hflag : ∀ lvl ∈ s.levels, ∃ i < s.levels.length, BitVec.twoPow 64 i = lvl := by
    intro lvl hlvl
    rw [hreg.flags hlast] at hlvl
    obtain ⟨i, hi, rfl⟩ := List.mem_map.mp hlvl
    exact ⟨i, List.mem_range.mp hi, rfl⟩
  constructor
  case single =>
    intro lvl hlvl
    obtain ⟨i, hi, rfl⟩ := hflag lvl hlvl
    exact ⟨i, by omega, rfl⟩
  case distinct =>
    rw [hreg.flags hlast]
    apply List.Nodup.map_on _ List.nodup_range
    intro i hi j _ hij
    have hlt := List.mem_range.mp hi
    exact twoPow_inj (by omega) hij
  case enabled_iff =>
    intro lvl hlvl
    obtain ⟨i, hi, rfl⟩ := hflag lvl hlvl
    rw [← h.on i hi, Bool.eq_iff_iff, ← and_twoPow_ne_zero_iff (by omega)]
    exact bne_iff_ne

/-- **Log levels form a set.**  In every run of calls on registered levels from an initialised log,
    the levels form a set at every moment exactly if fewer than 28 levels are registered, so that
    with the four default ones the last slot of the table stays free. -/
theorem levelsFormSet_iff (hlog : Initialized log) {calls : List LogCall}
    (hcalls : (logCalls.run calls (.opened log)).isSome) :
    (∀ k s, logCalls.run (calls.take k) (.opened log) = some s → LevelSet s) ↔
      calls.countP LogCall.registers < 28 := by
  obtain ⟨hopened, hlevel⟩ := hlog.registered
  have hlength : ∀ {calls s}, logCalls.run calls (.opened log) = some s →
      Registered s ∧ s.levels.length = 4 + calls.countP LogCall.registers :=
    fun hrun => length_levels_history.run ⟨hopened, by rw [levels_opened]; rfl⟩ hrun
  constructor
  · intro hall
    by_contra hmany
    obtain ⟨s, hrun⟩ := Option.isSome_iff_exists.mp hcalls
    obtain ⟨hreg, hlen⟩ := hlength hrun
    have hset := hall calls.length s (by rw [List.take_length]; exact hrun)
    -- the level of the last slot has been registered
    have hmem : levelOf 31 ∈ s.levels := by
      rw [hreg.levels_eq]
      exact List.mem_map.mpr ⟨31, List.mem_range.mpr (by omega), rfl⟩
    exact levelOf_last_not_single (hset.single _ hmem)
  · intro hfew k s hrun
    obtain ⟨hreg, hlen⟩ := hlength hrun
    have hle : (calls.take k).countP LogCall.registers ≤ calls.countP LogCall.registers :=
      (List.take_sublist k calls).countP_le
    have hlast : s.levels.length ≤ 31 := by omega
    have hbits := (bits_invariant.run ⟨hopened, fun _ => bits_opened hlevel⟩ hrun).2 hlast
    exact levelSet_of_bits hreg hlast hbits

/-- One more level that is registered, turned off and turned on again together with another. -/
theorem levelsFormSet_iff_fifth :
    (∀ k s, logCalls.run ([.register "TRACE" 1, .disable [16], .enable [2, 16]].take k)
        (.opened (initializeLogWithFilehandle 1)) = some s → LevelSet s) ↔ 1 < 28 :=
  levelsFormSet_iff (.filehandle 1) (by decide +kernel)

/-- The level of the last slot stays on when it is turned off. -/
theorem last_slot_stays_on :
    ∃ s, logCalls.run (List.replicate 28 (.register "LEVEL" 1) ++ [.disable [levelOf 31]])
        (.opened (initializeLogWithFilehandle 1)) = some s ∧
      levelOf 31 ∈ s.levels ∧ turnedOn (levelOf 31) s.history = false ∧
      levelEnabled s.log (levelOf 31) = true ∧ ¬ LevelSet s := by
  have hrun : (logCalls.run (List.replicate 28 (.register "LEVEL" 1) ++ [.disable [levelOf 31]])
      (.opened (initializeLogWithFilehandle 1))).any (fun s =>
        decide (levelOf 31 ∈ s.levels) && !turnedOn (levelOf 31) s.history &&
          levelEnabled s.log (levelOf 31)) = true := by decide +kernel
  obtain ⟨s, hs, hfacts⟩ := (Option.any_eq_true _ _).mp hrun
  simp only [Bool.and_eq_true, decide_eq_true_eq, Bool.not_eq_true'] at hfacts
  obtain ⟨⟨hmem, hoff⟩, hon⟩ := hfacts
  refine ⟨s, hs, hmem, hoff, hon, ?_⟩
  intro hset
  have henabled := hset.enabled_iff _ hmem
  rw [hon, hoff] at henabled
  exact Bool.false_ne_true henabled.symm

end NetworkExperiment
