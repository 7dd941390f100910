import Mathlib.Data.UInt
import Mathlib.Data.List.Nodup
import NetworkExperiment.Lib.BitField

namespace NetworkExperiment

/-!
# Opcode definitions

The run-time definition of a 64-bit opcode (`cmpsc311_opcode.c`): an array of field definitions,
allocated once for a fixed number of fields and filled from the top bit of the word down.

* `initOpcodeDefinition` / `addOpcodeField` — the two ways a definition comes to be;
* `walkFields` — the loop over the assigned fields that every function of the file shares;
* `Built` — the definitions that a sequence of `add_opcode_field` calls produces;
* `Layout` / `layout_of_built` — the invariant: the fields tile the top `used_bits` bits, in the
  order in which they were added, and no name and no identifier occurs twice.

A read or a write outside the allocated array has no result (`none`).
-/

/-! ### Field definitions -/

/-- The width of an opcode, `CMPSC311_OPCODE_BITWIDTH`. -/
abbrev opcodeBitwidth : ℕ := 64

/-- One field of an opcode.  The name is a pointer; it is `NULL` in an unused element. -/
structure CMPSC311FieldDef where
  name : Option String
  fieldId : UInt8
  startBit : UInt8
  width : UInt8
  deriving DecidableEq, Repr

/-- The element `calloc` leaves in the array: no name, and zeros. -/
def CMPSC311FieldDef.zero : CMPSC311FieldDef := ⟨none, 0, 0, 0⟩

/-- The bits of the word that the field occupies. -/
def CMPSC311FieldDef.field (f : CMPSC311FieldDef) : BitFields.Field :=
  ⟨f.startBit.toNat, f.width.toNat⟩

/-- The definition of an opcode.  The array has room for exactly `num_fields` elements. -/
structure Cmpsc311OpcodeDef where
  opTitle : String
  numFields : UInt8
  assignedFields : UInt8
  usedBits : UInt8
  fielddefs : List CMPSC311FieldDef
  length_fielddefs : fielddefs.length = numFields.toNat

/-- `init_opcode_definition`, where the allocations succeed: an array for the fields, of which none
    is assigned. -/
def initOpcodeDefinition (name : String) (nofields : UInt8) : Cmpsc311OpcodeDef where
  opTitle := name
  numFields := nofields
  assignedFields := 0
  usedBits := 0
  fielddefs := List.replicate nofields.toNat .zero
  length_fielddefs := List.length_replicate

namespace Cmpsc311OpcodeDef

variable {α : Type}

/-- The fields that have been assigned, in the order of the array. -/
def assigned (d : Cmpsc311OpcodeDef) : List CMPSC311FieldDef :=
  d.fielddefs.take d.assignedFields.toNat

/-- The rest of the walk over the array, from element `i` on: `visit` may leave it early. -/
def walkFrom (d : Cmpsc311OpcodeDef) (visit : CMPSC311FieldDef → Option α) :
    (todo i : ℕ) → Option (Option α)
  | 0, _ => some none
  | todo + 1, i => do
      let f ← d.fielddefs[i]?
      match visit f with
      | some a => some (some a)
      | none => walkFrom d visit todo (i + 1)

/-- The loop `for (i=0; i<def->assigned_fields; i++)` with an early return. -/
def walkFields (d : Cmpsc311OpcodeDef) (visit : CMPSC311FieldDef → Option α) : Option (Option α) :=
  d.walkFrom visit d.assignedFields.toNat 0

end Cmpsc311OpcodeDef

/-- The element that `add_opcode_field` writes for a new field.  Its bits are the highest that are
    free; `startBit` is the lowest of them. -/
def Cmpsc311OpcodeDef.newField (d : Cmpsc311OpcodeDef) (name : String) (id width : UInt8) :
    CMPSC311FieldDef where
  name := some name
  fieldId := id
  startBit := UInt8.ofNat (opcodeBitwidth - (d.usedBits.toNat + width.toNat))
  width := width

/-- The assignment that `add_opcode_field` makes once its checks have passed. -/
def Cmpsc311OpcodeDef.assign (d : Cmpsc311OpcodeDef) (f : CMPSC311FieldDef) :
    Cmpsc311OpcodeDef where
  opTitle := d.opTitle
  numFields := d.numFields
  assignedFields := d.assignedFields + 1
  usedBits := d.usedBits + f.width
  fielddefs := d.fielddefs.set d.assignedFields.toNat f
  length_fielddefs := by rw [List.length_set, d.length_fielddefs]

/-- `add_opcode_field`: the return code and the definition afterwards. -/
def addOpcodeField (d : Cmpsc311OpcodeDef) (name : String) (id width : UInt8) :
    Option (ℤ × Cmpsc311OpcodeDef) := do
  let duplicate ← d.walkFields fun f =>
    if f.name = some name then some () else if f.fieldId = id then some () else none
  if duplicate.isSome then
    return (-1, d)
  if d.usedBits.toNat + width.toNat > opcodeBitwidth then
    return (-1, d)
  -- no check against `num_fields` guards the write
  if d.assignedFields.toNat < d.fielddefs.length then
    return (0, d.assign (d.newField name id width))
  none

/-- `get_fieldname`: the name of the first field with the identifier, or `NULL`. -/
def getFieldname (d : Cmpsc311OpcodeDef) (id : UInt8) : Option (Option String) := do
  let found ← d.walkFields fun f => if f.fieldId = id then some f.name else none
  return found.join

/-- The definitions that `init_opcode_definition` and any sequence of `add_opcode_field` calls
    produce, where the successful ones have widths in `W`.  More than `num_fields` calls cannot
    succeed: the next one would write outside the array, and there the model has no result. -/
inductive Built (W : UInt8 → Prop) (title : String) (n : UInt8) : Cmpsc311OpcodeDef → Prop
  | init : Built W title n (initOpcodeDefinition title n)
  | add {d d' : Cmpsc311OpcodeDef} {name : String} {id width : UInt8} {ret : ℤ} :
      Built W title n d → addOpcodeField d name id width = some (ret, d') →
      (ret = 0 → W width) → Built W title n d'

/-! ### The walk -/

namespace Cmpsc311OpcodeDef

variable {α : Type} {d : Cmpsc311OpcodeDef}

/-- A walk that stays in the array finds what a search of the elements finds. -/
theorem walkFrom_eq (visit : CMPSC311FieldDef → Option α) (todo i : ℕ)
    (h : i + todo ≤ d.fielddefs.length) :
    d.walkFrom visit todo i = some (((d.fielddefs.drop i).take todo).findSome? visit) := by
  induction todo generalizing i with
  | zero => simp [walkFrom]
  | succ todo ih =>
    have hi : i < d.fielddefs.length := by omega
    rw [walkFrom, List.getElem?_eq_getElem hi, List.drop_eq_getElem_cons hi, List.take_succ_cons,
      List.findSome?_cons]
    simp only [Option.bind_eq_bind, Option.bind_some]
    cases hvisit : visit d.fielddefs[i] with
    | some a => rfl
    | none => exact ih (i + 1) (by omega)

/-- The loop over the assigned fields searches the assigned fields. -/
theorem walkFields_eq (visit : CMPSC311FieldDef → Option α)
    (h : d.assignedFields.toNat ≤ d.fielddefs.length) :
    d.walkFields visit = some (d.assigned.findSome? visit) := by
  rw [walkFields, walkFrom_eq visit _ 0 (by omega), List.drop_zero, assigned]

/-! ### The layout -/

/-- The number of bits that the first `k` fields take. -/
def widthSum (d : Cmpsc311OpcodeDef) (k : ℕ) : ℕ := ((d.assigned.take k).map (·.width.toNat)).sum

/-- The invariant of a definition. -/
structure Layout (W : UInt8 → Prop) (d : Cmpsc311OpcodeDef) : Prop where
  /-- The assigned fields are elements of the array. -/
  assigned_le : d.assignedFields.toNat ≤ d.fielddefs.length
  /-- The used bits are those of the assigned fields, -/
  used_eq : d.usedBits.toNat = d.widthSum d.assigned.length
  /-- and the word has room for them. -/
  used_le : d.usedBits.toNat ≤ opcodeBitwidth
  /-- Each field begins where the fields before it and itself end, counted from the top. -/
  start_eq : ∀ i (hi : i < d.assigned.length),
    d.assigned[i].startBit.toNat = opcodeBitwidth - d.widthSum (i + 1)
  /-- Names are distinct, -/
  names : (d.assigned.map (·.name)).Nodup
  /-- identifiers are distinct, -/
  ids : (d.assigned.map (·.fieldId)).Nodup
  /-- and every width is one that the callers use. -/
  widths : ∀ f ∈ d.assigned, W f.width

variable {W : UInt8 → Prop} {f : CMPSC311FieldDef}

/-- The counter does not wrap inside the array, which has at most 255 elements. -/
theorem assignedFields_assign (h : d.assignedFields.toNat < d.fielddefs.length) :
    (d.assign f).assignedFields.toNat = d.assignedFields.toNat + 1 := by
  have hlen := d.length_fielddefs
  have hmax := d.numFields.toNat_lt
  unfold assign
  rw [UInt8.toNat_add]
  exact Nat.mod_eq_of_lt (by simp; omega)

/-- An assignment inside the array puts the field behind the assigned ones. -/
theorem assigned_assign (h : d.assignedFields.toNat < d.fielddefs.length) :
    (d.assign f).assigned = d.assigned ++ [f] := by
  rw [assigned, assignedFields_assign h]
  unfold assigned assign
  dsimp only
  rw [← List.take_append_getElem (by rw [List.length_set]; exact h),
    List.take_set_of_le le_rfl, List.getElem_set_self]

/-- The widths of the first fields are not changed by an assignment behind them. -/
theorem widthSum_assign (h : d.assignedFields.toNat < d.fielddefs.length) {k : ℕ}
    (hk : k ≤ d.assigned.length) : (d.assign f).widthSum k = d.widthSum k := by
  rw [widthSum, widthSum, assigned_assign h, List.take_append_of_le_length hk]

/-- With the new field, its width is added. -/
theorem widthSum_assign_last (h : d.assignedFields.toNat < d.fielddefs.length) :
    (d.assign f).widthSum (d.assigned.length + 1)
      = d.widthSum d.assigned.length + f.width.toNat := by
  rw [widthSum, widthSum, assigned_assign h, List.take_of_length_le (by simp), List.take_length,
    List.map_append, List.sum_append, List.map_singleton, List.sum_singleton]

end Cmpsc311OpcodeDef

/-! ### Every definition has the layout -/

open Cmpsc311OpcodeDef

variable {W : UInt8 → Prop} {title : String} {n : UInt8} {d d' : Cmpsc311OpcodeDef}

/-- A fresh definition has no fields. -/
theorem layout_init : (initOpcodeDefinition title n).Layout W where
  assigned_le := Nat.zero_le _
  used_eq := by simp [initOpcodeDefinition, widthSum, assigned]
  used_le := Nat.zero_le _
  start_eq := by simp [initOpcodeDefinition, assigned]
  names := by simp [initOpcodeDefinition, assigned]
  ids := by simp [initOpcodeDefinition, assigned]
  widths := by simp [initOpcodeDefinition, assigned]

/-- What a call of `add_opcode_field` does: it refuses a name or an identifier that is taken, it
    refuses a field that the word has no room for, and otherwise it assigns the next element. -/
theorem addOpcodeField_eq (h : d.Layout W) (name : String) (id width : UInt8) :
    addOpcodeField d name id width =
      if ∃ f ∈ d.assigned, f.name = some name ∨ f.fieldId = id then some (-1, d)
      else if d.usedBits.toNat + width.toNat > opcodeBitwidth then some (-1, d)
      else if d.assignedFields.toNat < d.fielddefs.length then
        some (0, d.assign (d.newField name id width))
      else none := by
  rw [addOpcodeField, walkFields_eq _ h.assigned_le]
  by_cases hdup : ∃ f ∈ d.assigned, f.name = some name ∨ f.fieldId = id
  · rw [if_pos hdup]
    have hsome : (d.assigned.findSome? fun f =>
        if f.name = some name then some ()
        else if f.fieldId = id then some () else none).isSome := by
      rw [List.findSome?_isSome_iff]
      obtain ⟨f, hf, hname | hid⟩ := hdup
      · exact ⟨f, hf, by simp [hname]⟩
      · exact ⟨f, hf, by simp [hid]⟩
    simp [hsome]
  · rw [if_neg hdup]
    have hnone : (d.assigned.findSome? fun f =>
        if f.name = some name then some ()
        else if f.fieldId = id then some () else none) = none := by
      rw [List.findSome?_eq_none_iff]
      intro f hf
      have hname : f.name ≠ some name := fun hname => hdup ⟨f, hf, .inl hname⟩
      have hid : f.fieldId ≠ id := fun hid => hdup ⟨f, hf, .inr hid⟩
      rw [if_neg hname, if_neg hid]
    simp [hnone]

/-- An accepted field keeps the layout. -/
theorem Cmpsc311OpcodeDef.Layout.assign (h : d.Layout W) {name : String} {id width : UInt8}
    (hnew : ¬ ∃ f ∈ d.assigned, f.name = some name ∨ f.fieldId = id)
    (hroom : d.usedBits.toNat + width.toNat ≤ opcodeBitwidth)
    (hlt : d.assignedFields.toNat < d.fielddefs.length) (hW : W width) :
    (d.assign (d.newField name id width)).Layout W := by
  have hassigned := assigned_assign (f := d.newField name id width) hlt
  have hlen : (d.assign (d.newField name id width)).assigned.length = d.assigned.length + 1 := by
    rw [hassigned, List.length_append, List.length_singleton]
  have hcount : (d.assign (d.newField name id width)).assignedFields.toNat
      = d.assignedFields.toNat + 1 := assignedFields_assign hlt
  -- the counter of the used bits does not wrap, as they fit in the word
  have hused : (d.assign (d.newField name id width)).usedBits.toNat
      = d.usedBits.toNat + width.toNat := by
    show (d.usedBits + width).toNat = _
    rw [UInt8.toNat_add]
    exact Nat.mod_eq_of_lt (by simp only [opcodeBitwidth] at hroom; omega)
  constructor
  case assigned_le =>
    rw [hcount, Cmpsc311OpcodeDef.assign, List.length_set]
    exact hlt
  case used_eq =>
    rw [hused, hlen, widthSum_assign_last hlt, ← h.used_eq]
    rfl
  case used_le => rw [hused]; exact hroom
  case start_eq =>
    intro i hi
    rw [hlen] at hi
    rcases Nat.lt_succ_iff_lt_or_eq.mp hi with hlast | rfl
    · -- an earlier field is where it was
      have hget : (d.assign (d.newField name id width)).assigned[i] = d.assigned[i] := by
        simp only [hassigned, List.getElem_append_left hlast]
      rw [hget, widthSum_assign hlt hlast]
      exact h.start_eq i hlast
    · -- the new one starts where the used bits ended
      have hget : (d.assign (d.newField name id width)).assigned[d.assigned.length]
          = d.newField name id width := by
        simp only [hassigned, List.getElem_concat_length]
      rw [hget, widthSum_assign_last hlt, ← h.used_eq]
      exact Nat.mod_eq_of_lt (by simp only [opcodeBitwidth]; omega)
  case names =>
    rw [hassigned, List.map_append, List.nodup_append']
    refine ⟨h.names, List.nodup_singleton _, ?_⟩
    intro name' hmem hlast
    obtain ⟨f, hf, rfl⟩ := List.mem_map.mp hmem
    exact hnew ⟨f, hf, .inl (List.mem_singleton.mp hlast)⟩
  case ids =>
    rw [hassigned, List.map_append, List.nodup_append']
    refine ⟨h.ids, List.nodup_singleton _, ?_⟩
    intro id' hmem hlast
    obtain ⟨f, hf, rfl⟩ := List.mem_map.mp hmem
    exact hnew ⟨f, hf, .inr (List.mem_singleton.mp hlast)⟩
  case widths =>
    intro f hf
    rw [hassigned, List.mem_append, List.mem_singleton] at hf
    rcases hf with hf | rfl
    · exact h.widths f hf
    · exact hW

/-- **Layout.**  Every definition that is built has the layout. -/
theorem layout_of_built (h : Built W title n d) : d.Layout W := by
  induction h with
  | init => exact layout_init
  | @add d d' name id width ret _ hadd hW ih =>
    rw [addOpcodeField_eq ih] at hadd
    split_ifs at hadd with hnew hroom hlt
    · obtain ⟨rfl, rfl⟩ := Prod.mk.inj (Option.some.inj hadd)
      exact ih
    · obtain ⟨rfl, rfl⟩ := Prod.mk.inj (Option.some.inj hadd)
      exact ih
    · obtain ⟨rfl, rfl⟩ := Prod.mk.inj (Option.some.inj hadd)
      exact ih.assign hnew (by omega) hlt (hW rfl)

/-! ### What the layout says about two fields -/

namespace Cmpsc311OpcodeDef

/-- The sum of the widths grows with the number of fields. -/
theorem widthSum_succ {i : ℕ} (hi : i < d.assigned.length) :
    d.widthSum (i + 1) = d.widthSum i + d.assigned[i].width.toNat := by
  rw [widthSum, widthSum, List.take_succ_eq_append_getElem hi, List.map_append, List.sum_append,
    List.map_singleton, List.sum_singleton]

theorem widthSum_mono : Monotone d.widthSum := by
  apply monotone_nat_of_le_succ
  intro i
  by_cases hi : i < d.assigned.length
  · rw [widthSum_succ hi]
    exact Nat.le_add_right _ _
  · unfold widthSum
    rw [List.take_of_length_le (by omega), List.take_of_length_le (by omega)]

/-- Every field ends within the word. -/
theorem Layout.field_le (h : d.Layout W) {f : CMPSC311FieldDef} (hf : f ∈ d.assigned) :
    f.field.start + f.field.width ≤ opcodeBitwidth := by
  obtain ⟨i, hi, rfl⟩ := List.getElem_of_mem hf
  have hstart := h.start_eq i hi
  have hsum := widthSum_succ hi
  have hle : d.widthSum (i + 1) ≤ d.widthSum d.assigned.length := widthSum_mono hi
  have hused := h.used_le
  rw [h.used_eq] at hused
  show d.assigned[i].startBit.toNat + d.assigned[i].width.toNat ≤ opcodeBitwidth
  omega

/-- Fields with different identifiers share no bit. -/
theorem Layout.disjoint (h : d.Layout W) {f g : CMPSC311FieldDef} (hf : f ∈ d.assigned)
    (hg : g ∈ d.assigned) (hne : f.fieldId ≠ g.fieldId) : f.field.Disjoint g.field := by
  obtain ⟨i, hi, rfl⟩ := List.getElem_of_mem hf
  obtain ⟨j, hj, rfl⟩ := List.getElem_of_mem hg
  have hstart_i := h.start_eq i hi
  have hstart_j := h.start_eq j hj
  have hsum_i := widthSum_succ hi
  have hsum_j := widthSum_succ hj
  have hused := h.used_le
  rw [h.used_eq] at hused
  have hle_i : d.widthSum (i + 1) ≤ d.widthSum d.assigned.length := widthSum_mono hi
  have hle_j : d.widthSum (j + 1) ≤ d.widthSum d.assigned.length := widthSum_mono hj
  unfold BitFields.Field.Disjoint CMPSC311FieldDef.field
  -- the field that was added later lies below the other one
  rcases Nat.lt_trichotomy i j with hij | rfl | hij
  · have hle : d.widthSum (i + 1) ≤ d.widthSum j := widthSum_mono hij
    right
    dsimp only
    omega
  · exact absurd rfl hne
  · have hle : d.widthSum (j + 1) ≤ d.widthSum i := widthSum_mono hij
    left
    dsimp only
    omega

/-- The search for an identifier finds the one field that carries it. -/
theorem Layout.find?_eq (h : d.Layout W) {f : CMPSC311FieldDef} (hf : f ∈ d.assigned) :
    d.assigned.find? (fun g => g.fieldId = f.fieldId) = some f := by
  have hsome : (d.assigned.find? fun g => g.fieldId = f.fieldId).isSome := by
    rw [List.find?_isSome]
    exact ⟨f, hf, by simp⟩
  obtain ⟨g, hg⟩ := Option.isSome_iff_exists.mp hsome
  have hid : g.fieldId = f.fieldId := by simpa using List.find?_some hg
  rw [hg, List.inj_on_of_nodup_map h.ids (List.mem_of_find?_eq_some hg) hf hid]

end Cmpsc311OpcodeDef

end NetworkExperiment
