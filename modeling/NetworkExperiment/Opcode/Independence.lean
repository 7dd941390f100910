import NetworkExperiment.Opcode.Fields

namespace NetworkExperiment

open BitFields Cmpsc311OpcodeDef

/-!
# The fields of an opcode are independent variables

Over a definition with usable widths a word stands for one variable for each identifier, and a
sequence of `set_opcode_field` calls behaves as a sequence of assignments to them:

* `setFields` — a sequence of calls, with the return code of each;
* `lastSet` — the value of the last successful call for an identifier;
* `vars` / `setOpcodeField_refines` — the variables a word stands for, and what a call does to
  them;
* `setFields_refines` — the same for a sequence of calls, by induction on it;
* `opcode_fields_independent` — the laws of the fields, for every definition that is built.
-/

/-! ### Sequences of calls -/

/-- A call of `set_opcode_field` and the code it returned. -/
structure SetCall where
  id : UInt8
  val : OpCode
  ret : ℤ
  deriving DecidableEq

/-- The calls one after the other: the return code of each and the opcode at the end. -/
def setFields (d : Cmpsc311OpcodeDef) :
    List (UInt8 × OpCode) → OpCode → Option (List SetCall × OpCode)
  | [], op => some ([], op)
  | (id, val) :: calls, op => do
      let (ret, op) ← setOpcodeField d id op val
      let (trace, op) ← setFields d calls op
      return (⟨id, val, ret⟩ :: trace, op)

/-- The value of the last call for the identifier that returned `0`. -/
def lastSet (id : UInt8) : List SetCall → Option OpCode
  | [] => none
  | c :: trace => (lastSet id trace).or (if c.id = id ∧ c.ret = 0 then some c.val else none)

/-- The identifier is defined and the value is below `2 ^ width`. -/
def Cmpsc311OpcodeDef.Admits (d : Cmpsc311OpcodeDef) (id : UInt8) (val : OpCode) : Prop :=
  ∃ f ∈ d.assigned, f.fieldId = id ∧ val.toNat < 2 ^ f.width.toNat

instance (d : Cmpsc311OpcodeDef) (id : UInt8) (val : OpCode) : Decidable (d.Admits id val) :=
  inferInstanceAs (Decidable (∃ f ∈ d.assigned, _))

/-- Bit `i` belongs to a field of the definition. -/
def Cmpsc311OpcodeDef.Uses (d : Cmpsc311OpcodeDef) (i : ℕ) : Prop :=
  ∃ f ∈ d.assigned, f.field.Covers i

/-! ### The variables a word stands for -/

/-- The variable of each identifier; one that no field has holds nothing. -/
def Cmpsc311OpcodeDef.vars (d : Cmpsc311OpcodeDef) (op : OpCode) (id : UInt8) : Option OpCode :=
  (d.field? id).map fun f => f.field.get op

variable {d : Cmpsc311OpcodeDef} {f g : CMPSC311FieldDef} {op op' val : OpCode} {id : UInt8}

/-- A found field is assigned and carries the identifier. -/
theorem mem_of_field?_eq (h : d.field? id = some f) : f ∈ d.assigned ∧ f.fieldId = id :=
  ⟨List.mem_of_find?_eq_some h, by simpa using List.find?_some h⟩

/-- A value is admitted exactly if it fits the field that the search finds. -/
theorem admits_iff (h : d.Layout usableWidth) (hfield : d.field? id = some f) :
    d.Admits id val ↔ val.toNat < 2 ^ f.width.toNat := by
  obtain ⟨hf, hid⟩ := mem_of_field?_eq hfield
  constructor
  · rintro ⟨g, hg, hgid, hval⟩
    have hgf : g = f := List.inj_on_of_nodup_map h.ids hg hf (hgid.trans hid.symm)
    rw [← hgf]
    exact hval
  · intro hval
    exact ⟨f, hf, hid, hval⟩

theorem not_admits (hfield : d.field? id = none) : ¬ d.Admits id val := by
  rintro ⟨f, hf, hid, -⟩
  have hne := List.find?_eq_none.mp hfield f hf
  simp [hid] at hne

/-- A call that is not admitted returns `-1` and leaves the opcode alone. -/
theorem setOpcodeField_refused (h : d.Layout usableWidth) (hval : ¬ d.Admits id val) :
    setOpcodeField d id op val = some (-1, op) := by
  rw [setOpcodeField_eq h]
  cases hfield : d.field? id with
  | none => rfl
  | some f =>
    dsimp only
    rw [if_neg (fun hlt => hval ((admits_iff h hfield).mpr hlt))]

/-- A call that is admitted returns `0` and writes the field. -/
theorem setOpcodeField_accepted (h : d.Layout usableWidth) (op : OpCode) (hval : d.Admits id val) :
    ∃ f, d.field? id = some f ∧ val.toNat < 2 ^ f.width.toNat ∧
      setOpcodeField d id op val = some (0, f.field.set op val) := by
  cases hfield : d.field? id with
  | none => exact absurd hval (not_admits hfield)
  | some f =>
    have hlt := (admits_iff h hfield).mp hval
    refine ⟨f, rfl, hlt, ?_⟩
    rw [setOpcodeField_eq h, hfield]
    dsimp only
    rw [if_pos hlt]

/-- A write to a field assigns its variable and no other. -/
theorem vars_set (h : d.Layout usableWidth) (hfield : d.field? id = some f)
    (hval : val.toNat < 2 ^ f.width.toNat) :
    d.vars (f.field.set op val) = Function.update (d.vars op) id (some val) := by
  obtain ⟨hf, hid⟩ := mem_of_field?_eq hfield
  funext id'
  unfold vars
  by_cases hid' : id' = id
  · subst hid'
    rw [Function.update_self, hfield, Option.map_some, get_set_self (h.field_le hf) hval]
  · rw [Function.update_of_ne hid']
    cases hfield' : d.field? id' with
    | none => rfl
    | some g =>
      obtain ⟨hg, hgid⟩ := mem_of_field?_eq hfield'
      have hne : f.fieldId ≠ g.fieldId := by
        rw [hid, hgid]
        exact Ne.symm hid'
      rw [Option.map_some, Option.map_some, get_set_of_disjoint (h.disjoint hf hg hne)]

/-- **Refinement of one call.**  It assigns the variable of an admitted value and does nothing
    otherwise; no bit outside the fields changes. -/
theorem setOpcodeField_refines (h : d.Layout usableWidth) (id : UInt8) (op val : OpCode) :
    ∃ ret op', setOpcodeField d id op val = some (ret, op') ∧
      (ret = 0 ↔ d.Admits id val) ∧
      d.vars op' = (if ret = 0 then Function.update (d.vars op) id (some val) else d.vars op) ∧
      ∀ i, ¬ d.Uses i → op'.getLsbD i = op.getLsbD i := by
  by_cases hval : d.Admits id val
  · obtain ⟨f, hfield, hlt, hset⟩ := setOpcodeField_accepted h op hval
    refine ⟨0, _, hset, ⟨fun _ => hval, fun _ => rfl⟩, ?_, ?_⟩
    · rw [if_pos rfl, vars_set h hfield hlt]
    · intro i hi
      have hf := (mem_of_field?_eq hfield).1
      exact getLsbD_set_of_not_covers fun hcov => hi ⟨f, hf, hcov⟩
  · refine ⟨-1, op, setOpcodeField_refused h hval, ?_, ?_, fun i _ => rfl⟩
    · exact ⟨fun hret => absurd hret (by decide), fun hadm => absurd hadm hval⟩
    · rw [if_neg (by decide)]

/-- **Refinement of a sequence.**  At the end each variable holds the value of the last successful
    call for it, or what it held at the start. -/
theorem setFields_refines (h : d.Layout usableWidth) (calls : List (UInt8 × OpCode)) (op : OpCode) :
    ∃ trace op', setFields d calls op = some (trace, op') ∧
      (∀ id, d.vars op' id = (lastSet id trace).or (d.vars op id)) ∧
      ∀ i, ¬ d.Uses i → op'.getLsbD i = op.getLsbD i := by
  induction calls generalizing op with
  | nil => exact ⟨[], op, rfl, fun id => rfl, fun i _ => rfl⟩
  | cons call calls ih =>
    obtain ⟨id, val⟩ := call
    obtain ⟨ret, op₁, hset, -, hvars, hunused⟩ := setOpcodeField_refines h id op val
    obtain ⟨trace, op', hrun, hvars', hunused'⟩ := ih op₁
    refine ⟨⟨id, val, ret⟩ :: trace, op', ?_, ?_, ?_⟩
    · rw [setFields, hset]
      simp only [Option.bind_eq_bind, Option.bind_some]
      rw [hrun]
      rfl
    · intro id'
      rw [hvars' id', hvars, lastSet, Option.or_assoc]
      congr 1
      -- the first call is the last successful one for `id'` only if it is for `id'`
      by_cases hret : ret = 0
      · rw [if_pos hret]
        by_cases hid : id = id'
        · subst hid
          rw [Function.update_self, if_pos ⟨rfl, hret⟩, Option.some_or]
        · rw [Function.update_of_ne (Ne.symm hid), if_neg (fun hc => hid hc.1), Option.none_or]
      · rw [if_neg hret, if_neg (fun hc => hret hc.2), Option.none_or]
    · intro i hi
      rw [hunused' i hi, hunused i hi]

/-- Successful calls for two different identifiers may be made in either order. -/
theorem setOpcodeField_comm (h : d.Layout usableWidth) {id₁ id₂ : UInt8} (hne : id₁ ≠ id₂)
    {op₁ op₁₂ v₁ v₂ : OpCode} (hset₁ : setOpcodeField d id₁ op v₁ = some (0, op₁))
    (hset₂ : setOpcodeField d id₂ op₁ v₂ = some (0, op₁₂)) :
    ∃ op₂, setOpcodeField d id₂ op v₂ = some (0, op₂) ∧
      setOpcodeField d id₁ op₂ v₁ = some (0, op₁₂) := by
  have hadm₁ : d.Admits id₁ v₁ := by
    by_contra hval
    rw [setOpcodeField_refused h hval] at hset₁
    simp at hset₁
  have hadm₂ : d.Admits id₂ v₂ := by
    by_contra hval
    rw [setOpcodeField_refused h hval] at hset₂
    simp at hset₂
  -- each call writes its field, in whichever word it finds
  obtain ⟨f, hfield₁, -, hf⟩ := setOpcodeField_accepted h op hadm₁
  obtain ⟨g, hfield₂, -, hg⟩ := setOpcodeField_accepted h op hadm₂
  obtain ⟨f', hfield₁', -, hf'⟩ := setOpcodeField_accepted h (g.field.set op v₂) hadm₁
  obtain ⟨g', hfield₂', -, hg'⟩ := setOpcodeField_accepted h (f.field.set op v₁) hadm₂
  obtain rfl : f' = f := Option.some.inj (hfield₁'.symm.trans hfield₁)
  obtain rfl : g' = g := Option.some.inj (hfield₂'.symm.trans hfield₂)
  have hop₁ : f'.field.set op v₁ = op₁ := by simpa [hf] using hset₁
  rw [← hop₁] at hset₂
  have hop₁₂ : g'.field.set (f'.field.set op v₁) v₂ = op₁₂ := by simpa [hg'] using hset₂
  have hdisj : f'.field.Disjoint g'.field := by
    obtain ⟨hmem₁, hid₁⟩ := mem_of_field?_eq hfield₁
    obtain ⟨hmem₂, hid₂⟩ := mem_of_field?_eq hfield₂
    exact h.disjoint hmem₁ hmem₂ (by rw [hid₁, hid₂]; exact hne)
  refine ⟨g'.field.set op v₂, hg, ?_⟩
  rw [hf', ← hop₁₂, set_comm hdisj]

/-- The variable of a defined field holds its bits. -/
theorem vars_of_mem (h : d.Layout usableWidth) (hf : f ∈ d.assigned) :
    d.vars op f.fieldId = some (f.field.get op) := by
  rw [vars, field?, h.find?_eq hf, Option.map_some]

/-- `get_opcode_field` returns the variable of a defined field. -/
theorem getOpcodeField_of_mem (h : d.Layout usableWidth) (hf : f ∈ d.assigned) {v : OpCode}
    (hvar : d.vars op f.fieldId = some v) : getOpcodeField d f.fieldId op val = some (0, v) := by
  rw [vars_of_mem h hf] at hvar
  rw [getOpcodeField_eq h, field?, h.find?_eq hf, ← Option.some.inj hvar]

/-! ### The laws of the fields -/

/-- **Independence.**  For every definition with widths from 1 to 63:
    a call of `set_opcode_field` returns `0` exactly if the identifier is defined and the value
    fits, and otherwise it returns `-1` and leaves the opcode as it was;
    after any sequence of calls, `get_opcode_field` of a defined identifier returns the last value
    that was set successfully, or the initial bits of the field;
    the bits that belong to no field never change;
    and successful calls for two different identifiers commute. -/
theorem opcode_fields_independent {title : String} {n : UInt8} {d : Cmpsc311OpcodeDef}
    (hd : Built usableWidth title n d) (op : OpCode) (calls : List (UInt8 × OpCode)) :
    (∀ id op val, ∃ ret op', setOpcodeField d id op val = some (ret, op') ∧
      (ret = 0 ↔ d.Admits id val) ∧ (ret ≠ 0 → ret = -1 ∧ op' = op)) ∧
    (∃ trace op', setFields d calls op = some (trace, op') ∧
      (∀ f ∈ d.assigned, ∀ val, getOpcodeField d f.fieldId op' val = some (0,
        (lastSet f.fieldId trace).getD
          ((op.extractLsb' f.startBit.toNat f.width.toNat).setWidth 64))) ∧
      ∀ i, ¬ d.Uses i → op'.getLsbD i = op.getLsbD i) ∧
    ∀ op id₁ id₂ v₁ v₂ op₁ op₁₂, id₁ ≠ id₂ → setOpcodeField d id₁ op v₁ = some (0, op₁) →
      setOpcodeField d id₂ op₁ v₂ = some (0, op₁₂) →
      ∃ op₂, setOpcodeField d id₂ op v₂ = some (0, op₂) ∧
        setOpcodeField d id₁ op₂ v₁ = some (0, op₁₂) := by
  have h := layout_of_built hd
  refine ⟨?_, ?_, ?_⟩
  · intro id op val
    by_cases hval : d.Admits id val
    · obtain ⟨f, -, -, hset⟩ := setOpcodeField_accepted h op hval
      exact ⟨0, _, hset, ⟨fun _ => hval, fun _ => rfl⟩, fun hret => absurd rfl hret⟩
    · refine ⟨-1, op, setOpcodeField_refused h hval, ?_, fun _ => ⟨rfl, rfl⟩⟩
      exact ⟨fun hret => absurd hret (by decide), fun hadm => absurd hadm hval⟩
  · obtain ⟨trace, op', hrun, hvars, hunused⟩ := setFields_refines h calls op
    refine ⟨trace, op', hrun, ?_, hunused⟩
    intro f hf val
    apply getOpcodeField_of_mem h hf
    rw [hvars, vars_of_mem h hf]
    cases lastSet f.fieldId trace <;> rfl
  · intro op id₁ id₂ v₁ v₂ op₁ op₁₂ hne hset₁ hset₂
    exact setOpcodeField_comm h hne hset₁ hset₂

/-- The definition of two 32-bit fields of the unit test. -/
def easyDefinition : Cmpsc311OpcodeDef where
  opTitle := "Unit test (easy)"
  numFields := 2
  assignedFields := 2
  usedBits := 64
  fielddefs := [⟨some "field 1", 0, 32, 32⟩, ⟨some "field 2", 1, 0, 32⟩]
  length_fielddefs := rfl

theorem built_easyDefinition : Built usableWidth "Unit test (easy)" 2 easyDefinition := by
  have hwidth : usableWidth 32 := by unfold usableWidth; decide
  have h₁ : Built usableWidth "Unit test (easy)" 2
      ((initOpcodeDefinition "Unit test (easy)" 2).assign ⟨some "field 1", 0, 32, 32⟩) :=
    @Built.add _ _ _ _ _ "field 1" 0 32 0 .init rfl fun _ => hwidth
  exact @Built.add _ _ _ _ _ "field 2" 1 32 0 h₁ rfl fun _ => hwidth

/-- The values that the unit test sets are the ones it gets. -/
theorem opcode_fields_independent_easy :
    ∃ trace op', setFields easyDefinition [(0, 0xa5a5a5a5), (1, 0x5a5a5a5a)] 0 = some (trace, op') ∧
      getOpcodeField easyDefinition 0 op' 0 = some (0, 0xa5a5a5a5) ∧
      getOpcodeField easyDefinition 1 op' 0 = some (0, 0x5a5a5a5a) := by
  obtain ⟨-, ⟨trace, op', hrun, hget, -⟩, -⟩ :=
    opcode_fields_independent built_easyDefinition 0 [(0, 0xa5a5a5a5), (1, 0x5a5a5a5a)]
  have htrace : setFields easyDefinition [(0, 0xa5a5a5a5), (1, 0x5a5a5a5a)] 0
      = some ([⟨0, 0xa5a5a5a5, 0⟩, ⟨1, 0x5a5a5a5a, 0⟩], 0xa5a5a5a55a5a5a5a) := by decide
  obtain ⟨rfl, rfl⟩ := Prod.mk.inj (Option.some.inj (htrace.symm.trans hrun))
  exact ⟨_, _, hrun, hget ⟨some "field 1", 0, 32, 32⟩ (by decide) 0,
    hget ⟨some "field 2", 1, 0, 32⟩ (by decide) 0⟩

end NetworkExperiment
