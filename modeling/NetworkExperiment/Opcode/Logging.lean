import Mathlib.Data.List.Perm.Subperm
import NetworkExperiment.Log.Trace
import NetworkExperiment.Opcode.Requests
import NetworkExperiment.Opcode.Widths

namespace NetworkExperiment

open Cmpsc311OpcodeDef CStrings

/-!
# Logging an opcode

`log_opcode_value` prints the value of an opcode field by field, each line by a message of its own
(`cmpsc311_opcode.c`).  Its loop counts the positions of the fields and uses the position as an
identifier:

* `headerLine`, `valueLine`, `badValueLine`, `unknownFieldLine`, `footerLine` — the texts;
* `logOpcodeFrom` / `logOpcodeValue` — the loop and the call, with all that is handed to `write`;
* `logOpcodeFrom_eq` — where the positions are identifiers, the loop prints the lines of the fields,
  or one of them does not fit into the array that `vlogMessage` has for it;
* `logOpcodeValue_eq` — the whole call, with the lines around these;
* `ShowsFields` — one line for each field, with its name and its value, and nothing else;
* `showsFields_iff` — the fields are shown exactly if their identifiers are the numbers below
  `num_fields`, shifting them out is defined, the log can be written to and every line fits.
-/

/-! ### The lines -/

/-- The conversion `%20s`. -/
def formatName (name : Option String) : List Char :=
  (terminated (name.getD "(null)").toList).leftpad 20 ' '

/-- `"OPCODE VALUE %s {"`. -/
def headerLine (title : String) : List Char :=
  "OPCODE VALUE ".toList ++ (terminated title.toList ++ " \x7b".toList)

/-- `"  %20s = %lx"`. -/
def valueLine (name : Option String) (val : OpCode) : List Char :=
  "  ".toList ++ (formatName name ++ (" = ".toList ++ Nat.toDigits 16 val.toNat))

/-- `"  %20s = [BAD VALUE]"`. -/
def badValueLine (name : Option String) : List Char :=
  "  ".toList ++ (formatName name ++ " = [BAD VALUE]".toList)

/-- `"CMPSC311 Opcode unknown field failure [%u]"`. -/
def unknownFieldLine (id : UInt8) : List Char :=
  "CMPSC311 Opcode unknown field failure [".toList ++ (Nat.toDigits 10 id.toNat ++ "]".toList)

/-- `"};"`. -/
def footerLine : List Char := "\x7d;".toList

example : valueLine (some "opcode") 0xa5 = "                opcode = a5".toList := by decide +kernel

/-- `get_opcode_field` with its message, which it logs at the level of errors. -/
def getOpcodeFieldLogged (envs : ℕ → LogEnvironment) (d : Cmpsc311OpcodeDef) (id : UInt8)
    (op val : OpCode) (t : LogTrace) : Option (ℤ × OpCode × LogTrace) := do
  let (ret, val) ← getOpcodeField d id op val
  if ret = 0 then
    return (ret, val, t)
  let t ← logText envs logErrorLevel (unknownFieldLine id) t
  return (ret, val, t)

/-- The rest of the loop `for (i=0; i<def->num_fields; i++)`, with the local variable `val`. -/
def logOpcodeFrom (envs : ℕ → LogEnvironment) (d : Cmpsc311OpcodeDef) (op : OpCode) (lvl : ULong) :
    (todo i : ℕ) → OpCode → LogTrace → Option LogTrace
  | 0, _, _, t => some t
  | todo + 1, i, val, t => do
      -- the position is passed where an identifier is expected
      let (ret, val, t) ← getOpcodeFieldLogged envs d (UInt8.ofNat i) op val t
      let name ← getFieldname d (UInt8.ofNat i)
      let t ← logText envs lvl (if ret ≠ 0 then badValueLine name else valueLine name val) t
      logOpcodeFrom envs d op lvl todo (i + 1) val t

/-- `log_opcode_value`: the return code, the log and what has been written; `val` is what the
    uninitialised local variable holds. -/
def logOpcodeValue (envs : ℕ → LogEnvironment) (log : Log) (d : Cmpsc311OpcodeDef) (op : OpCode)
    (lvl : ULong) (val : OpCode) : Option (ℤ × LogTrace) := do
  if !levelEnabled log lvl then
    return (0, ⟨log, []⟩)
  let t ← logText envs lvl (headerLine d.opTitle) ⟨log, []⟩
  let t ← logOpcodeFrom envs d op lvl d.numFields.toNat 0 val t
  let t ← logText envs lvl footerLine t
  return (0, t)

/-! ### Plain texts -/

theorem plainText_footerLine : PlainText footerLine := ⟨by decide, by decide⟩

theorem plainText_headerLine (title : String) : PlainText (headerLine title) := by
  have hbrace : PlainText " \x7b".toList := ⟨by decide, by decide⟩
  have htitle : PlainText (terminated title.toList ++ " \x7b".toList) :=
    hbrace.append (nul_not_mem_terminated _) (by decide)
  exact htitle.append (by decide) (List.append_ne_nil_of_right_ne_nil _ (by decide))

/-- A number ends with a digit. -/
theorem plainText_toDigits (m : ℕ) : PlainText (Nat.toDigits 16 m) := by
  have hdigit : ∀ c ∈ Nat.toDigits 16 m, c ≠ '\x00' ∧ c ≠ '\n' := by
    intro c hc
    obtain ⟨digit, rfl⟩ := exists_digit_of_mem_toDigits (by decide) hc
    exact ⟨Nat.digitChar_ne _ (by decide), Nat.digitChar_ne _ (by decide)⟩
  exact ⟨fun hmem => (hdigit _ hmem).1 rfl,
    fun hlast => (hdigit _ (List.mem_of_getLast? hlast)).2 rfl⟩

theorem plainText_valueLine (name : Option String) (val : OpCode) :
    PlainText (valueLine name val) := by
  have hname : '\x00' ∉ formatName name := by
    unfold formatName List.leftpad
    rw [List.mem_append, List.mem_replicate, not_or]
    exact ⟨fun h => absurd h.2 (by decide), nul_not_mem_terminated _⟩
  have hvalue : PlainText (" = ".toList ++ Nat.toDigits 16 val.toNat) :=
    (plainText_toDigits _).append (by decide) Nat.toDigits_ne_nil
  have hne : " = ".toList ++ Nat.toDigits 16 val.toNat ≠ [] :=
    List.append_ne_nil_of_right_ne_nil _ Nat.toDigits_ne_nil
  exact (hvalue.append hname hne).append (by decide) (List.append_ne_nil_of_right_ne_nil _ hne)

/-! ### The loop -/

variable {W : UInt8 → Prop} {title : String} {n : UInt8} {d : Cmpsc311OpcodeDef}
  {f : CMPSC311FieldDef} {op val : OpCode} {envs : ℕ → LogEnvironment} {log : Log} {lvl : ULong}
  {line : List Char} {texts : List (List Char)} {t t' : LogTrace} {todo i : ℕ}
  {rs : List FieldRequest}

/-- The name that `get_fieldname` finds. -/
theorem getFieldname_eq (h : d.Layout W) (id : UInt8) :
    getFieldname d id = some ((d.field? id).map (·.name)).join := by
  rw [getFieldname, walkFields_search h id (·.name)]
  rfl

/-- Both shifts of `opcode_shift_out` are defined for the field. -/
def CMPSC311FieldDef.Shiftable (f : CMPSC311FieldDef) : Prop :=
  f.width.toNat < opcodeBitwidth ∧ f.startBit.toNat < opcodeBitwidth

/-- The line of a field: its name and the value that `get_opcode_field` returns for its
    identifier. -/
def fieldLine (d : Cmpsc311OpcodeDef) (op : OpCode) (f : CMPSC311FieldDef) : Option (List Char) :=
  (getOpcodeField d f.fieldId op 0).bind fun r =>
    if r.1 = 0 then some (valueLine f.name r.2) else none

/-- A field has a line exactly if it can be shifted out. -/
theorem fieldLine_isSome_iff (h : d.Layout W) (hf : f ∈ d.assigned) (op : OpCode) :
    (fieldLine d op f).isSome ↔ f.Shiftable := by
  unfold fieldLine CMPSC311FieldDef.Shiftable
  rw [getOpcodeField_found h (h.find?_eq hf), ← opcodeShiftOut_isSome_iff]
  cases opcodeShiftOut op (widen f.startBit) (widen f.width) <;> simp

/-- The line does not depend on what the local variable held. -/
theorem getOpcodeField_fieldLine (h : d.Layout W) (hf : f ∈ d.assigned)
    (hline : fieldLine d op f = some line) (val : OpCode) :
    ∃ out, getOpcodeField d f.fieldId op val = some (0, out) ∧ line = valueLine f.name out := by
  unfold fieldLine at hline
  rw [getOpcodeField_found h (h.find?_eq hf)] at hline ⊢
  cases hout : opcodeShiftOut op (widen f.startBit) (widen f.width) with
  | none =>
    rw [hout] at hline
    cases hline
  | some out =>
    rw [hout] at hline
    exact ⟨out, rfl, (Option.some.inj hline).symm⟩

/-- A round of the loop whose position is the identifier of a field: no field is unknown, and the
    line of this one is the next message. -/
theorem logOpcodeFrom_round (h : d.Layout W) (hopen : log.Opened lvl) (hf : f ∈ d.assigned)
    (hid : f.fieldId = UInt8.ofNat i) (hline : fieldLine d op f = some line) (val : OpCode) :
    ∃ out, logOpcodeFrom envs d op lvl (todo + 1) i val (traceOf envs log lvl texts) =
      if lineLength log lvl line < maxLogMessageSize then
        logOpcodeFrom envs d op lvl todo (i + 1) out (traceOf envs log lvl (texts ++ [line]))
      else none := by
  obtain ⟨out, hget, rfl⟩ := getOpcodeField_fieldLine h hf hline val
  refine ⟨out, ?_⟩
  have hname : getFieldname d f.fieldId = some f.name := by
    have hfield : d.field? f.fieldId = some f := h.find?_eq hf
    rw [getFieldname_eq h, hfield]
    rfl
  have hquiet : getOpcodeFieldLogged envs d f.fieldId op val (traceOf envs log lvl texts)
      = some (0, out, traceOf envs log lvl texts) := by
    rw [getOpcodeFieldLogged, hget]
    rfl
  rw [logOpcodeFrom, ← hid, hquiet, hname]
  simp only [Option.bind_eq_bind, Option.bind_some, ne_eq, not_true_eq_false, if_false]
  rw [logText_eq hopen (plainText_valueLine f.name out)]
  split_ifs <;> rfl

/-- **The loop.**  If the numbers from `i` on are identifiers of fields that have lines, the loop
    adds these lines to the trace, or one of them does not fit. -/
theorem logOpcodeFrom_eq (envs : ℕ → LogEnvironment) (h : d.Layout W) (hopen : log.Opened lvl)
    (op : OpCode) (todo i : ℕ) (fields : List CMPSC311FieldDef) (hfields : fields ⊆ d.assigned)
    (hids : fields.map (·.fieldId) = (List.range' i todo).map UInt8.ofNat)
    (lines : List (List Char)) (hlines : lines.map some = fields.map (fieldLine d op))
    (val : OpCode) (texts : List (List Char)) :
    logOpcodeFrom envs d op lvl todo i val (traceOf envs log lvl texts) =
      if ∀ line ∈ lines, lineLength log lvl line < maxLogMessageSize then
        some (traceOf envs log lvl (texts ++ lines))
      else none := by
  induction todo generalizing i fields lines val texts with
  | zero =>
    obtain rfl : fields = [] := List.map_eq_nil_iff.mp hids
    obtain rfl : lines = [] := List.map_eq_nil_iff.mp hlines
    rw [if_pos (List.forall_mem_nil _), List.append_nil, logOpcodeFrom]
  | succ todo ih =>
    cases fields with
    | nil => cases hids
    | cons f fields =>
      cases lines with
      | nil => cases hlines
      | cons line lines =>
        rw [List.range'_succ, List.map_cons, List.map_cons] at hids
        obtain ⟨hid, hids⟩ := List.cons.inj hids
        obtain ⟨hf, hfields⟩ := List.cons_subset.mp hfields
        obtain ⟨hline, hlines⟩ := List.cons.inj hlines
        obtain ⟨out, hround⟩ := logOpcodeFrom_round h hopen hf hid hline.symm val
        rw [hround]
        by_cases hfits : lineLength log lvl line < maxLogMessageSize
        · rw [if_pos hfits, ih (i + 1) fields hfields hids lines hlines out]
          simp only [List.forall_mem_cons, hfits, true_and, List.append_assoc,
            List.singleton_append]
        · rw [if_neg hfits, if_neg]
          exact fun hall => hfits (hall line List.mem_cons_self)

/-- A field that is not found adds a message. -/
theorem prefix_of_getOpcodeFieldLogged {id : UInt8} {r : ℤ × OpCode × LogTrace}
    (h : getOpcodeFieldLogged envs d id op val t = some r) : t.written <+: r.2.2.written := by
  unfold getOpcodeFieldLogged at h
  obtain ⟨⟨ret, out⟩, -, h⟩ := Option.bind_eq_some_iff.mp h
  dsimp only at h
  split_ifs at h with hfound
  · obtain rfl := Option.some.inj h
    exact List.prefix_rfl
  · obtain ⟨t₁, hmessage, h⟩ := Option.bind_eq_some_iff.mp h
    obtain rfl := Option.some.inj h
    obtain ⟨written, hwritten⟩ := written_of_logText hmessage
    exact hwritten ▸ List.prefix_append _ _

/-- The loop only adds messages. -/
theorem prefix_of_logOpcodeFrom (hloop : logOpcodeFrom envs d op lvl todo i val t = some t') :
    t.written <+: t'.written := by
  induction todo generalizing i val t with
  | zero =>
    obtain rfl := Option.some.inj hloop
    exact List.prefix_rfl
  | succ todo ih =>
    simp only [logOpcodeFrom, Option.bind_eq_bind, Option.bind_eq_some_iff] at hloop
    obtain ⟨⟨ret, out, t₁⟩, hget, name, -, t₂, hline, hrest⟩ := hloop
    have hfirst : t.written <+: t₁.written := prefix_of_getOpcodeFieldLogged hget
    obtain ⟨written, hwritten⟩ := written_of_logText hline
    have hsecond : t₁.written <+: t₂.written := hwritten ▸ List.prefix_append _ _
    exact (hfirst.trans hsecond).trans (ih hrest)

/-! ### All fields are shown -/

/-- `log_opcode_value` hands one line for each field to `write`, with the name of the field and the
    value that `get_opcode_field` returns for its identifier; around these stand the lines with the
    braces.  Every line is whole and has the time of its own message, and no identifier is looked up
    that is not defined. -/
structure ShowsFields (envs : ℕ → LogEnvironment) (log : Log) (d : Cmpsc311OpcodeDef) (op : OpCode)
    (lvl : ULong) : Prop where
  lines : ∀ val, ∃ between,
    logOpcodeValue envs log d op lvl val
        = some (0, traceOf envs (readyLog log (envs 0).opened) lvl
            (headerLine d.opTitle :: between ++ [footerLine])) ∧
      (between.map some).Perm (d.assigned.map (fieldLine d op))
  defined : ∀ i < d.numFields.toNat, ∃ f ∈ d.assigned, f.fieldId = UInt8.ofNat i

/-- A line that is shown is written to the log. -/
theorem ShowsFields.putsLineTogether (h : ShowsFields envs log d op lvl)
    (hlvl : levelEnabled log lvl = true) : PutsLineTogether (envs 0) log lvl := by
  by_contra hputs
  obtain ⟨between, hcall, -⟩ := h.lines 0
  rw [logOpcodeValue, hlvl, logText_of_errored hlvl hputs] at hcall
  simp only [Bool.not_true, Bool.false_eq_true, if_false, Option.bind_eq_bind, Option.bind_some,
    Option.bind_eq_some_iff] at hcall
  obtain ⟨t, hloop, t', hfooter, heq⟩ := hcall
  obtain rfl : t' = _ := (Prod.mk.inj (Option.some.inj heq)).2
  -- nothing has been written for the first message
  obtain ⟨written, hwritten⟩ := written_of_logText hfooter
  obtain ⟨rest, hrest⟩ := prefix_of_logOpcodeFrom hloop
  rw [← hrest, traceOf] at hwritten
  have hnothing := congrArg List.head? hwritten
  simp [writes] at hnothing

/-- Calls that all succeed fill the definition. -/
theorem records_of_successes
    (h : addOpcodeFields (initOpcodeDefinition title n) rs = some (List.replicate n.toNat 0, d)) :
    ∃ taken, Records n taken d ∧ taken.length = n.toNat := by
  have hroom : (accepted [] rs).length ≤ n.toNat := by
    by_contra hfull
    rw [addOpcodeFields_eq_none records_init rs (Nat.zero_le _) (Nat.not_le.mp hfull)] at h
    cases h
  have hempty : Records n [] (initOpcodeDefinition title n) := records_init
  obtain ⟨d', hcalls, hd'⟩ := addOpcodeFields_eq hempty rs hroom
  rw [h] at hcalls
  obtain ⟨hrets, rfl⟩ := Prod.mk.inj (Option.some.inj hcalls)
  have hcount := count_verdicts [] rs
  rw [List.length_nil, Nat.zero_add, ← hrets, List.count_replicate_self] at hcount
  exact ⟨_, hd', hcount.symm⟩

/-- The identifiers as numbers. -/
theorem nodup_fieldIds (h : d.Layout W) : (d.assigned.map (·.fieldId.toNat)).Nodup := by
  have hinj : Function.Injective UInt8.toNat := fun _ _ heq => UInt8.toNat_inj.mp heq
  have hnodup := h.ids.map hinj
  rwa [List.map_map] at hnodup

/-- Fields with the identifiers `0`, …, `n - 1` can be put in the order of these. -/
theorem exists_sorted_fields (h : (d.assigned.map (·.fieldId.toNat)).Perm (List.range n.toNat)) :
    ∃ fields, d.assigned.Perm fields ∧
      fields.map (·.fieldId) = (List.range' 0 n.toNat).map UInt8.ofNat := by
  have hcomp : Relation.Comp (List.Forall₂ fun f i => f.fieldId.toNat = i) List.Perm d.assigned
      (List.range n.toNat) :=
    ⟨_, List.forall₂_map_right_iff.mpr (List.forall₂_same.mpr fun _ _ => rfl), h⟩
  rw [List.forall₂_comp_perm_eq_perm_comp_forall₂] at hcomp
  obtain ⟨fields, hperm, hnumbers⟩ := hcomp
  have hmap := List.forall₂_map_left_iff.mpr hnumbers
  rw [List.forall₂_eq_eq_eq] at hmap
  refine ⟨fields, hperm, ?_⟩
  rw [← List.range_eq_range', ← hmap, List.map_map]
  apply List.map_congr_left
  intro f _
  exact UInt8.ofNat_toNat.symm

/-- Fields that all have lines. -/
theorem exists_lines {fields : List CMPSC311FieldDef}
    (h : ∀ f ∈ fields, (fieldLine d op f).isSome) :
    ∃ lines : List (List Char), lines.map some = fields.map (fieldLine d op) := by
  induction fields with
  | nil => exact ⟨[], rfl⟩
  | cons f fields ih =>
    obtain ⟨hf, hfields⟩ := List.forall_mem_cons.mp h
    obtain ⟨line, hline⟩ := Option.isSome_iff_exists.mp hf
    obtain ⟨lines, hlines⟩ := ih hfields
    exact ⟨line :: lines, by rw [List.map_cons, List.map_cons, hline, hlines]⟩

/-- **The call.**  If the numbers below `num_fields` are identifiers of fields that have lines, the
    call shows these between the lines with the braces, or one of the lines does not fit. -/
theorem logOpcodeValue_eq (h : d.Layout W) (hlvl : levelEnabled log lvl = true)
    (hputs : PutsLineTogether (envs 0) log lvl) {fields : List CMPSC311FieldDef}
    (hfields : fields ⊆ d.assigned)
    (hids : fields.map (·.fieldId) = (List.range' 0 d.numFields.toNat).map UInt8.ofNat)
    {lines : List (List Char)} (hlines : lines.map some = fields.map (fieldLine d op))
    (val : OpCode) :
    logOpcodeValue envs log d op lvl val =
      if lineLength log lvl (headerLine d.opTitle) < maxLogMessageSize ∧
          ∀ line ∈ lines, lineLength log lvl line < maxLogMessageSize then
        some (0, traceOf envs (readyLog log (envs 0).opened) lvl
          (headerLine d.opTitle :: lines ++ [footerLine]))
      else none := by
  have hopen := opened_readyLog hputs
  have hloop := logOpcodeFrom_eq envs h hopen op d.numFields.toNat 0 fields hfields hids lines
    hlines val [headerLine d.opTitle]
  simp only [lineLength_readyLog] at hloop
  rw [logOpcodeValue, hlvl, logText_first hputs (plainText_headerLine _)]
  simp only [Bool.not_true, Bool.false_eq_true, if_false]
  by_cases hheader : lineLength log lvl (headerLine d.opTitle) < maxLogMessageSize
  · rw [if_pos hheader]
    by_cases hfit : ∀ line ∈ lines, lineLength log lvl line < maxLogMessageSize
    · -- the line with the closing brace is shorter than the one with the title
      have hfooter : lineLength log lvl footerLine < maxLogMessageSize := by
        have hlength : footerLine.length ≤ "OPCODE VALUE ".toList.length := by decide
        have hle : footerLine.length ≤ (headerLine d.opTitle).length :=
          hlength.trans (List.prefix_append _ _).length_le
        exact (plainText_headerLine d.opTitle).fits_of_le plainText_footerLine hle hheader
      rw [if_pos ⟨hheader, hfit⟩]
      simp only [Option.bind_eq_bind, Option.bind_some, hloop, if_pos hfit]
      rw [logText_eq hopen plainText_footerLine, lineLength_readyLog, if_pos hfooter]
      rfl
    · rw [if_neg fun hall => hfit hall.2]
      simp only [Option.bind_eq_bind, Option.bind_some, hloop, if_neg hfit]
      rfl
  · rw [if_neg hheader, if_neg fun hall => hheader hall.1]
    rfl

/-- If the fields are shown, the numbers below `n` are their identifiers, and every line fits. -/
theorem ShowsFields.fields (hshows : ShowsFields envs log d op lvl)
    (hlvl : levelEnabled log lvl = true) {taken : List FieldRequest} (hd : Records n taken d)
    (htaken : taken.length = n.toNat) :
    lineLength log lvl (headerLine d.opTitle) < maxLogMessageSize ∧
      ∀ f ∈ d.assigned, f.fieldId.toNat < n.toNat ∧ f.Shiftable ∧
        ∀ line ∈ fieldLine d op f, lineLength log lvl line < maxLogMessageSize := by
  have hputs := hshows.putsLineTogether hlvl
  have hlen : (d.assigned.map (·.fieldId.toNat)).length = n.toNat := by
    rw [List.length_map, hd.length_assigned, htaken]
  -- all numbers below `n` are identifiers, and there are no more fields than these
  have hsub : List.range n.toNat ⊆ d.assigned.map (·.fieldId.toNat) := by
    intro i hi
    have hlt := List.mem_range.mp hi
    have hbyte := n.toNat_lt
    obtain ⟨g, hg, hid⟩ := hshows.defined i (by rw [hd.numFields_eq]; exact hlt)
    refine List.mem_map.mpr ⟨g, hg, ?_⟩
    rw [hid]
    exact Nat.mod_eq_of_lt (by omega)
  have hperm := ((List.nodup_range.subperm hsub).perm_of_length_le
    (by rw [hlen, List.length_range])).symm
  -- a field that cannot be shifted out has no line
  obtain ⟨between, hcall, hbetween⟩ := hshows.lines 0
  have hline : ∀ f ∈ d.assigned, (fieldLine d op f).isSome := by
    intro f hf
    have hmem := hbetween.mem_iff.mpr (List.mem_map.mpr ⟨f, hf, rfl⟩)
    obtain ⟨line, -, hline⟩ := List.mem_map.mp hmem
    rw [← hline]
    rfl
  obtain ⟨fields, hsorted, hids⟩ := exists_sorted_fields hperm
  obtain ⟨lines, hlines⟩ := exists_lines fun f hf => hline f (hsorted.mem_iff.mpr hf)
  -- a line that does not fit leaves the call without a result
  rw [logOpcodeValue_eq hd.layout hlvl hputs hsorted.symm.subset (hd.numFields_eq ▸ hids) hlines]
    at hcall
  obtain ⟨hheader, hfit⟩ : lineLength log lvl (headerLine d.opTitle) < maxLogMessageSize ∧
      ∀ line ∈ lines, lineLength log lvl line < maxLogMessageSize := by
    by_contra hnot
    rw [if_neg hnot] at hcall
    cases hcall
  refine ⟨hheader, ?_⟩
  intro f hf
  refine ⟨List.mem_range.mp (hperm.mem_iff.mp (List.mem_map.mpr ⟨f, hf, rfl⟩)),
    (fieldLine_isSome_iff hd.layout hf op).mp (hline f hf), ?_⟩
  intro line hfline
  have hmem : some line ∈ lines.map some := by
    rw [hlines, ← Option.mem_def.mp hfline]
    exact List.mem_map.mpr ⟨f, hsorted.mem_iff.mp hf, rfl⟩
  obtain ⟨line', hline', heq⟩ := List.mem_map.mp hmem
  exact Option.some.inj heq ▸ hfit line' hline'

/-- **Logging an opcode.**  After `n` successful calls on a definition for `n` fields, logging a
    value at a level that is enabled shows all its fields exactly if the log can be written to, the
    line with the title fits, and each field has an identifier below `n`, can be shifted out (it is
    not as wide as the word, and does not begin behind it), and has a line that fits. -/
theorem showsFields_iff (hlvl : levelEnabled log lvl = true)
    (h : addOpcodeFields (initOpcodeDefinition title n) rs = some (List.replicate n.toNat 0, d)) :
    ShowsFields envs log d op lvl ↔ PutsLineTogether (envs 0) log lvl ∧
      lineLength log lvl (headerLine d.opTitle) < maxLogMessageSize ∧
      ∀ f ∈ d.assigned, f.fieldId.toNat < n.toNat ∧ f.Shiftable ∧
        ∀ line ∈ fieldLine d op f, lineLength log lvl line < maxLogMessageSize := by
  obtain ⟨taken, hd, htaken⟩ := records_of_successes h
  refine ⟨fun hshows => ⟨hshows.putsLineTogether hlvl, hshows.fields hlvl hd htaken⟩, ?_⟩
  rintro ⟨hputs, hheader, hfields⟩
  have hsub : d.assigned.map (·.fieldId.toNat) ⊆ List.range n.toNat := by
    intro i hi
    obtain ⟨f, hf, rfl⟩ := List.mem_map.mp hi
    exact List.mem_range.mpr (hfields f hf).1
  have hperm := ((nodup_fieldIds hd.layout).subperm hsub).perm_of_length_le
    (by rw [List.length_range, List.length_map, hd.length_assigned, htaken])
  -- the loop goes through the fields in the order of their identifiers
  obtain ⟨fields, hsorted, hids⟩ := exists_sorted_fields hperm
  constructor
  case lines =>
    intro val
    obtain ⟨lines, hlines⟩ := exists_lines fun f hf =>
      (fieldLine_isSome_iff hd.layout (hsorted.mem_iff.mpr hf) op).mpr
        (hfields f (hsorted.mem_iff.mpr hf)).2.1
    have hfit : ∀ line ∈ lines, lineLength log lvl line < maxLogMessageSize := by
      intro line hline
      have hmem : some line ∈ fields.map (fieldLine d op) :=
        hlines ▸ List.mem_map.mpr ⟨line, hline, rfl⟩
      obtain ⟨f, hf, hfline⟩ := List.mem_map.mp hmem
      exact (hfields f (hsorted.mem_iff.mpr hf)).2.2 line hfline
    refine ⟨lines, ?_, ?_⟩
    · rw [logOpcodeValue_eq hd.layout hlvl hputs hsorted.symm.subset (hd.numFields_eq ▸ hids) hlines]
      exact if_pos ⟨hheader, hfit⟩
    · rw [hlines]
      exact (hsorted.map _).symm
  case defined =>
    intro i hi
    rw [hd.numFields_eq] at hi
    obtain ⟨f, hf, hid⟩ := List.mem_map.mp (hperm.mem_iff.mpr (List.mem_range.mpr hi))
    refine ⟨f, hf, ?_⟩
    rw [← hid, UInt8.ofNat_toNat]

/-- Two fields whose identifiers are the positions of each other, logged to the standard output. -/
theorem showsFields_iff_swapped :
    ∃ d, addOpcodeFields (initOpcodeDefinition "op" 2) [⟨"high", 1, 40⟩, ⟨"low", 0, 24⟩]
        = some ([0, 0], d) ∧
      ShowsFields (fun _ => ⟨epoch, -1, 60⟩) (initializeLogWithFilehandle 1) d 0xabcdef012345
        1 := by
  refine ⟨_, rfl, (@showsFields_iff "op" 2 _ _ _ _ _ [⟨"high", 1, 40⟩, ⟨"low", 0, 24⟩]
    (by decide +kernel) rfl).mpr ⟨?_, ?_, ?_⟩⟩
  · unfold PutsLineTogether
    decide +kernel
  · decide +kernel
  · unfold CMPSC311FieldDef.Shiftable
    decide +kernel

/-- The value of a field whose identifier is not its position is not printed: the loop looks up the
    identifier `0`, which is logged as a failure. -/
theorem not_showsFields_identifier_five :
    ∃ d, addOpcodeFields (initOpcodeDefinition "op" 1) [⟨"five", 5, 8⟩] = some ([0], d) ∧
      (logOpcodeValue (fun _ => ⟨epoch, -1, 60⟩) (initializeLogWithFilehandle 1) d 0 1 0).map
          (·.2.written)
        = some (traceOf (fun _ => ⟨epoch, -1, 60⟩) (initializeLogWithFilehandle 1) 1
            [headerLine "op", unknownFieldLine 0, badValueLine none, footerLine]).written ∧
      ¬ ShowsFields (fun _ => ⟨epoch, -1, 60⟩) (initializeLogWithFilehandle 1) d 0 1 := by
  refine ⟨_, rfl, by decide +kernel, ?_⟩
  intro hshows
  obtain ⟨f, hf, hid⟩ := hshows.defined 0 (by decide)
  obtain rfl := List.mem_singleton.mp hf
  cases hid

end NetworkExperiment
