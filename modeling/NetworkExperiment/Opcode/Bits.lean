import NetworkExperiment.Lib.CharArray
import NetworkExperiment.Log.Trace
import NetworkExperiment.Opcode.Independence

namespace NetworkExperiment

open BitFields CStrings CharArrays Cmpsc311OpcodeDef

/-!
# The bits of an opcode

`log_opcode_bits` prints a word in binary, under two rulers that number the bits
(`cmpsc311_opcode.c`):

* `bitLoop` / `logOpcodeBits` — the loop that fills an array of 70 characters, and the messages;
* `bitLoop_eq` — after its rounds the array holds the columns of the word;
* `logOpcodeBits_eq` — the messages are the rulers and the columns, each of 64 characters, so that
  the lines of all of them fit if one does;
* `columns_eq` — the fields of a definition stand side by side in the columns, in the order in
  which they have been added;
* `logOpcodeBits_shows` — so each field can be read off the line.
-/

/-! ### The call -/

/-- The character of a bit. -/
def bitChar (b : Bool) : Char := if b then '1' else '0'

/-- The first ruler, with the tens. -/
def tensRuler : List Char :=
  "   6         5         4         3         2         1         0".toList

/-- The second ruler, with the units. -/
def unitsRuler : List Char :=
  "3210987654321098765432109876543210987654321098765432109876543210".toList

/-- The rest of the loop `for (i=0; i<64; i++)`, from the bit 63 downwards. -/
def bitLoop (op : OpCode) : (todo i : ℕ) → List Char → Option (List Char)
  | 0, _, str => some str
  | todo + 1, i, str => do
      let shifted ← shr op (BitVec.ofNat 64 (63 - i))
      let str ← store str i (if shifted &&& 1 ≠ 0 then '1' else '0')
      bitLoop op todo (i + 1) str

/-- `log_opcode_bits`: the return code, the log and what has been written.  The array is passed as
    a format, and has no `%` in it. -/
def logOpcodeBits (envs : ℕ → LogEnvironment) (log : Log) (op : OpCode) (lvl : ULong) :
    Option (ℤ × LogTrace) := do
  if !levelEnabled log lvl then
    return (0, ⟨log, []⟩)
  let str ← bitLoop op 64 0 (List.replicate 70 '\x00')
  let t ← logTexts envs lvl [tensRuler, unitsRuler, terminated str] ⟨log, []⟩
  return (0, t)

/-! ### The loop -/

variable {op : OpCode} {d : Cmpsc311OpcodeDef} {W : UInt8 → Prop} {envs : ℕ → LogEnvironment}
  {log : Log} {lvl : ULong}

/-- The bit that a round prints: the shift brings it to the bottom of the word. -/
theorem shifted_and_one (op : OpCode) (k : ℕ) :
    op >>> k &&& 1 ≠ 0 ↔ op.getLsbD k = true := by
  show op >>> k &&& 1#64 ≠ 0#64 ↔ _
  rw [BitVec.and_one_eq_setWidth_ofBool_getLsbD, BitVec.getLsbD_ushiftRight, Nat.add_zero]
  cases op.getLsbD k <;> decide

/-- The characters of the columns. -/
def bitLine (w : ℕ) (op : OpCode) : List Char := (columns w op).map bitChar

/-- **The loop.**  What is left of the loop writes the columns of the bits that are left. -/
theorem bitLoop_eq (todo i : ℕ) (hi : i + todo = 64) (front behind : List Char)
    (hfront : front.length = i) :
    bitLoop op todo i (front ++ List.replicate todo '\x00' ++ behind)
      = some (front ++ bitLine todo op ++ behind) := by
  induction todo generalizing i front with
  | zero => rfl
  | succ todo ih =>
    -- the shift count is less than 64, so the shift is defined
    have hcount : (BitVec.ofNat 64 (63 - i)).toNat = todo := by
      rw [BitVec.toNat_ofNat, Nat.mod_eq_of_lt (by omega)]
      omega
    -- the array of 70 characters has room for the character, which takes the place of a zero
    have hstore : ∀ c, store (front ++ List.replicate (todo + 1) '\x00' ++ behind) i c
        = some (front ++ [c] ++ List.replicate todo '\x00' ++ behind) := by
      intro c
      subst hfront
      unfold store
      rw [if_pos (by simp only [List.length_append, List.length_replicate]; omega),
        List.replicate_succ]
      simp
    rw [bitLoop, shr_eq (by rw [hcount]; unfold opcodeBitwidth; omega), hcount]
    simp only [Option.bind_eq_bind, Option.bind_some, hstore, shifted_and_one]
    rw [ih (i + 1) (by omega) _ (by simp [hfront]), bitLine, bitLine, columns_succ]
    simp [bitChar]

/-- As many characters as bits. -/
theorem length_bitLine (w : ℕ) (op : OpCode) : (bitLine w op).length = w := by
  rw [bitLine, List.length_map, length_columns]

/-- Only binary digits are printed. -/
theorem eq_of_mem_bitLine {w : ℕ} {c : Char} (hc : c ∈ bitLine w op) : c = '0' ∨ c = '1' := by
  obtain ⟨b, -, rfl⟩ := List.mem_map.mp hc
  cases b with
  | false => exact .inl rfl
  | true => exact .inr rfl

/-- The columns have no `NUL` and no newline. -/
theorem plainText_bitLine (w : ℕ) (op : OpCode) : PlainText (bitLine w op) where
  nul_not_mem := by
    intro hmem
    rcases eq_of_mem_bitLine hmem with h | h <;> exact absurd h (by decide)
  getLast?_ne := by
    intro hlast
    rcases eq_of_mem_bitLine (List.mem_of_getLast? hlast) with h | h <;> exact absurd h (by decide)

/-- The third message is made of the 64 columns of the word. -/
theorem logOpcodeBits_eq (envs : ℕ → LogEnvironment) (hlvl : levelEnabled log lvl = true)
    (op : OpCode) : logOpcodeBits envs log op lvl
      = (logTexts envs lvl [tensRuler, unitsRuler, bitLine 64 op] ⟨log, []⟩).map
          fun t => (0, t) := by
  have hloop := @bitLoop_eq op 64 0 rfl [] (List.replicate 6 '\x00') rfl
  -- the zeros that are left end the string
  have hholds : Holds (bitLine 64 op ++ List.replicate 6 '\x00') (bitLine 64 op) :=
    ⟨(plainText_bitLine 64 op).nul_not_mem, List.replicate 5 '\x00', rfl⟩
  rw [List.nil_append, List.nil_append, ← List.replicate_add] at hloop
  rw [logOpcodeBits, hlvl, hloop]
  simp only [Option.bind_eq_bind, Option.bind_some, hholds.terminated_eq]
  exact Option.map_eq_bind.symm

/-- All three messages have 64 characters: if one of them fits behind the time and the names of the
    levels, all are shown. -/
theorem logOpcodeBits_of_fits (hputs : PutsLineTogether (envs 0) log lvl)
    (hfits : lineLength log lvl unitsRuler < maxLogMessageSize) (op : OpCode) :
    logOpcodeBits envs log op lvl
      = some (0, traceOf envs (readyLog log (envs 0).opened) lvl
          [tensRuler, unitsRuler, bitLine 64 op]) := by
  have htens : PlainText tensRuler := ⟨by decide +kernel, by decide +kernel⟩
  have hunits : PlainText unitsRuler := ⟨by decide +kernel, by decide +kernel⟩
  have hlength : tensRuler.length = 64 ∧ unitsRuler.length = 64 := by decide +kernel
  have hsame : ∀ text, PlainText text → text.length = 64 →
      lineLength log lvl text < maxLogMessageSize := by
    intro text hplain hlen
    exact hunits.fits_of_le hplain (by rw [hlen, hlength.2]) hfits
  -- the other two messages find the log open
  have hrest : ∀ text ∈ [unitsRuler, bitLine 64 op], PlainText text ∧
      lineLength (readyLog log (envs 0).opened) lvl text < maxLogMessageSize := by
    intro text htext
    rw [lineLength_readyLog]
    rcases List.mem_pair.mp htext with rfl | rfl
    · exact ⟨hunits, hfits⟩
    · exact ⟨plainText_bitLine 64 op, hsame _ (plainText_bitLine 64 op) (length_bitLine 64 op)⟩
  rw [logOpcodeBits_eq envs hputs.1, logTexts, logText_first hputs htens,
    if_pos (hsame _ htens hlength.1), Option.bind_some, logTexts_eq (opened_readyLog hputs) hrest]
  rfl

/-! ### The fields in the line -/

/-- The binary number that a line shows: the lowest `w` bits of the word. -/
theorem ofDigitChars_bitLine (w : ℕ) (op : OpCode) :
    Nat.ofDigitChars 2 (bitLine w op) 0 = op.toNat % 2 ^ w := by
  have hdigit : ∀ b : Bool, (bitChar b).toNat - '0'.toNat = b.toNat := by decide
  rw [Nat.ofDigitChars_eq_foldl, bitLine, List.foldl_map]
  simp only [hdigit]
  rw [foldl_columns, Nat.zero_mul, Nat.zero_add]

/-- **Side by side.**  The columns of the first fields, from the top of the word on, and the columns
    of the bits below them. -/
theorem columns_eq (h : d.Layout W) (op : OpCode) {k : ℕ} (hk : k ≤ d.assigned.length) :
    columns opcodeBitwidth op
      = (d.assigned.take k).flatMap (fun f => columns f.width.toNat (f.field.get op))
        ++ columns (opcodeBitwidth - d.widthSum k) op := by
  induction k with
  | zero => simp [widthSum]
  | succ k ih =>
    have hlt : k < d.assigned.length := hk
    have hsum := widthSum_succ hlt
    have hle : d.widthSum (k + 1) ≤ d.widthSum d.assigned.length := widthSum_mono hk
    have hused := h.used_le
    rw [h.used_eq] at hused
    -- the next field ends where the ones before it begin
    have hsplit : opcodeBitwidth - d.widthSum k
        = d.assigned[k].width.toNat + (opcodeBitwidth - d.widthSum (k + 1)) := by omega
    have hget : columns d.assigned[k].width.toNat (d.assigned[k].field.get op)
        = columns d.assigned[k].width.toNat (op >>> d.assigned[k].startBit.toNat) :=
      columns_get d.assigned[k].field op
    rw [ih (Nat.le_of_lt hlt), List.take_succ_eq_append_getElem hlt, List.flatMap_append,
      List.flatMap_singleton, hsplit, columns_add, ← h.start_eq k hlt, ← hget, List.append_assoc]

/-- The line shows the fields of a definition: it is made of binary digits, and these are, field by
    field in the order in which they have been added, as many digits as the field has bits, which
    are those of the value that `get_opcode_field` returns, and a rest for the bits that no field
    has. -/
structure ShowsBits (d : Cmpsc311OpcodeDef) (op : OpCode) (line : List Char) : Prop where
  digits : ∀ c ∈ line, c = '0' ∨ c = '1'
  whole : line.length = opcodeBitwidth ∧ Nat.ofDigitChars 2 line 0 = op.toNat
  fields : ∃ shown rest, line = shown.flatten ++ rest ∧
    rest.length = opcodeBitwidth - d.usedBits.toNat ∧
    List.Forall₂ (fun f bits => bits.length = f.width.toNat ∧
      getOpcodeField d f.fieldId op 0 = some (0, BitVec.ofNat 64 (Nat.ofDigitChars 2 bits 0)))
      d.assigned shown

/-- The digits of a field are those of the value that `get_opcode_field` returns. -/
theorem getOpcodeField_bitLine (h : d.Layout usableWidth) {f : CMPSC311FieldDef}
    (hf : f ∈ d.assigned) : getOpcodeField d f.fieldId op 0 = some (0, BitVec.ofNat 64
      (Nat.ofDigitChars 2 (bitLine f.width.toNat (f.field.get op)) 0)) := by
  have hfound : d.field? f.fieldId = some f := h.find?_eq hf
  have hlt : (f.field.get op).toNat < 2 ^ f.width.toNat := by
    rw [toNat_lt_two_pow_iff]
    intro i hi
    -- the value of a field has no bits beyond its width
    have hout : ¬ i < f.field.width := Nat.not_lt.mpr hi
    rw [getLsbD_get, decide_eq_false hout, Bool.false_and]
  rw [getOpcodeField_eq h, hfound, ofDigitChars_bitLine, Nat.mod_eq_of_lt hlt,
    BitVec.ofNat_toNat, BitVec.setWidth_eq]

/-- **The bits of an opcode.**  For every definition with widths from 1 to 63 and every word, the
    message under the rulers shows the fields.  If the log can be written to, and 64 characters fit
    behind the time and the names of the levels, all three lines are written whole. -/
theorem logOpcodeBits_shows {title : String} {n : UInt8} (envs : ℕ → LogEnvironment)
    (hd : Built usableWidth title n d) (hlvl : levelEnabled log lvl = true) (op : OpCode) :
    ∃ line, ShowsBits d op line ∧
      logOpcodeBits envs log op lvl
        = (logTexts envs lvl [tensRuler, unitsRuler, line] ⟨log, []⟩).map (fun t => (0, t)) ∧
      (PutsLineTogether (envs 0) log lvl → lineLength log lvl unitsRuler < maxLogMessageSize →
        logOpcodeBits envs log op lvl
          = some (0, traceOf envs (readyLog log (envs 0).opened) lvl
              [tensRuler, unitsRuler, line])) := by
  have h := layout_of_built hd
  refine ⟨bitLine 64 op, ⟨fun c hc => eq_of_mem_bitLine hc, ⟨length_bitLine 64 op, ?_⟩, ?_⟩,
    logOpcodeBits_eq envs hlvl op, fun hputs hfits => logOpcodeBits_of_fits hputs hfits op⟩
  · rw [ofDigitChars_bitLine, Nat.mod_eq_of_lt op.isLt]
  · refine ⟨d.assigned.map fun f => bitLine f.width.toNat (f.field.get op),
      bitLine (opcodeBitwidth - d.usedBits.toNat) op, ?_, length_bitLine _ op, ?_⟩
    · -- all fields, and the bits that none has
      have hcols := columns_eq h op (Nat.le_refl d.assigned.length)
      rw [List.take_length, ← h.used_eq] at hcols
      rw [bitLine, hcols, List.map_append, List.map_flatMap]
      rfl
    · rw [List.forall₂_map_right_iff, List.forall₂_same]
      intro f hf
      exact ⟨length_bitLine _ _, getOpcodeField_bitLine h hf⟩

/-- The word of the unit test, whose fields are two halves, logged to the standard output. -/
theorem logOpcodeBits_shows_easy :
    ∃ line, ShowsBits easyDefinition 0xa5a5a5a55a5a5a5a line ∧
      logOpcodeBits (fun _ => ⟨epoch, -1, 96⟩) (initializeLogWithFilehandle 1) 0xa5a5a5a55a5a5a5a 1
        = some (0, traceOf (fun _ => ⟨epoch, -1, 96⟩) (initializeLogWithFilehandle 1) 1
            [tensRuler, unitsRuler, line]) := by
  obtain ⟨line, hshows, -, hwritten⟩ := logOpcodeBits_shows (fun _ => ⟨epoch, -1, 96⟩)
    built_easyDefinition (by decide +kernel : levelEnabled (initializeLogWithFilehandle 1) 1 = true)
    0xa5a5a5a55a5a5a5a
  refine ⟨line, hshows, hwritten ?_ (by decide +kernel)⟩
  unfold PutsLineTogether
  decide +kernel

/-- The rulers number the columns from 63 on downwards. -/
example : unitsRuler = (List.range 64).map (fun i => Nat.digitChar ((63 - i) % 10)) ∧
    tensRuler = (List.range 64).map fun i =>
      if (63 - i) % 10 = 0 then Nat.digitChar ((63 - i) / 10) else ' ' := by decide +kernel

end NetworkExperiment
