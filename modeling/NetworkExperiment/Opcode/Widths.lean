import NetworkExperiment.Opcode.Fields

namespace NetworkExperiment

open BitFields Cmpsc311OpcodeDef

/-!
# The widths that a definition accepts

`add_opcode_field` accepts every width that the word has room for, the whole word included
(`cmpsc311_opcode.c`).  The masks of `set_opcode_field` and `get_opcode_field` are built by
shifting a one by the width, which is undefined for a field of 64 bits:

* `FieldUsable` — every value that fits the field can be set and is got back, and no shift on the
  way has a count of 64 or more;
* `opcodeShiftOut_isSome_iff` — where shifting a field out is defined;
* `fieldUsable_iff` — a field is usable exactly if it does not span the word.
-/

/-- Every value below `2 ^ width` can be set and is got back, and no call for the field makes an
    undefined shift. -/
structure FieldUsable (d : Cmpsc311OpcodeDef) (f : CMPSC311FieldDef) : Prop where
  set_defined : ∀ op val, (setOpcodeField d f.fieldId op val).isSome
  get_defined : ∀ op val, (getOpcodeField d f.fieldId op val).isSome
  set_get : ∀ op val : OpCode, val.toNat < 2 ^ f.width.toNat →
    ∃ op', setOpcodeField d f.fieldId op val = some (0, op') ∧
      ∀ before, getOpcodeField d f.fieldId op' before = some (0, val)

variable {W : UInt8 → Prop} {title : String} {n : UInt8} {d : Cmpsc311OpcodeDef}
  {f : CMPSC311FieldDef} {op : OpCode}

/-- A shift by the width of the word or more is undefined. -/
theorem shl_eq_none {x count : OpCode} (h : opcodeBitwidth ≤ count.toNat) : shl x count = none :=
  if_neg (Nat.not_lt.mpr h)

theorem shr_eq_none {x count : OpCode} (h : opcodeBitwidth ≤ count.toNat) : shr x count = none :=
  if_neg (Nat.not_lt.mpr h)

/-- Shifting a field out is defined exactly if its width and its start are below 64. -/
theorem opcodeShiftOut_isSome_iff :
    (opcodeShiftOut op (widen f.startBit) (widen f.width)).isSome ↔
      f.width.toNat < opcodeBitwidth ∧ f.startBit.toNat < opcodeBitwidth := by
  unfold opcodeShiftOut
  by_cases hwidth : f.width.toNat < opcodeBitwidth
  · rw [shl_eq (by rw [toNat_widen]; exact hwidth)]
    by_cases hstart : f.startBit.toNat < opcodeBitwidth
    · rw [shr_eq (by rw [toNat_widen]; exact hstart)]
      exact iff_of_true rfl ⟨hwidth, hstart⟩
    · rw [shr_eq_none (by rw [toNat_widen]; exact Nat.not_lt.mp hstart)]
      exact iff_of_false Bool.false_ne_true (fun h => hstart h.2)
  · rw [shl_eq_none (by rw [toNat_widen]; exact Nat.not_lt.mp hwidth)]
    exact iff_of_false Bool.false_ne_true (fun h => hwidth h.1)

/-- **Usable widths.**  A field of a definition with non-empty fields can be set to every value
    that fits it, and got back, exactly if it does not span the word. -/
theorem fieldUsable_iff (h : Built (fun w => 1 ≤ w.toNat) title n d) (hf : f ∈ d.assigned) :
    FieldUsable d f ↔ f.width.toNat ≤ 63 := by
  have hlayout := layout_of_built h
  have hfield : d.field? f.fieldId = some f := hlayout.find?_eq hf
  constructor
  · -- any read will do: its mask is shifted by the width
    intro husable
    have hdefined := husable.get_defined 0 0
    rw [getOpcodeField_found hlayout hfield, Option.isSome_map, opcodeShiftOut_isSome_iff]
      at hdefined
    exact Nat.le_of_lt_succ hdefined.1
  · intro hle
    -- a field that is not empty begins in front of the end of the word
    have hw : usableWidth f.width := ⟨hlayout.widths f hf, hle⟩
    have hend := hlayout.field_le hf
    have hget : ∀ op before, getOpcodeField d f.fieldId op before = some (0, f.field.get op) := by
      intro op before
      rw [getOpcodeField_found hlayout hfield, opcodeShiftOut_eq hw hend]
      rfl
    constructor
    case set_defined =>
      intro op val
      rw [setOpcodeField_found hlayout hfield hw]
      rfl
    case get_defined =>
      intro op val
      rw [hget]
      rfl
    case set_get =>
      intro op val hval
      refine ⟨f.field.set op val, ?_, ?_⟩
      · rw [setOpcodeField_found hlayout hfield hw, if_pos hval]
      · intro before
        rw [hget, get_set_self hend hval]

/-- The definition of an opcode that is one field. -/
def oneFieldDefinition (width : UInt8) : Cmpsc311OpcodeDef :=
  (initOpcodeDefinition "op" 1).assign ((initOpcodeDefinition "op" 1).newField "all" 0 width)

/-- A field of 63 bits, the widest that can be used. -/
theorem fieldUsable_iff_widest :
    FieldUsable (oneFieldDefinition 63) ⟨some "all", 0, 1, 63⟩ ↔ 63 ≤ 63 := by
  have hadd : addOpcodeField (initOpcodeDefinition "op" 1) "all" 0 63
      = some (0, oneFieldDefinition 63) := rfl
  exact fieldUsable_iff (.add .init hadd fun _ => by decide) (.head _)

/-- A field that spans the word is accepted, and no shift by its width is defined. -/
theorem not_fieldUsable_whole_word :
    ∃ d f, addOpcodeField (initOpcodeDefinition "op" 1) "all" 0 64 = some (0, d) ∧
      f ∈ d.assigned ∧ f.width.toNat = 64 ∧ ¬ FieldUsable d f := by
  refine ⟨oneFieldDefinition 64, ⟨some "all", 0, 0, 64⟩, rfl, .head _, rfl, ?_⟩
  intro husable
  have hnone : getOpcodeField (oneFieldDefinition 64) 0 0 0 = none := rfl
  have hdefined := husable.get_defined 0 0
  rw [hnone] at hdefined
  exact Bool.false_ne_true hdefined

end NetworkExperiment
