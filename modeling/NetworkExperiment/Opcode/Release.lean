import NetworkExperiment.Opcode.Independence

namespace NetworkExperiment

open Cmpsc311OpcodeDef

/-!
# Releasing an opcode definition

`release_opcode_definition` walks over the assigned fields, but looks at the element behind them in
every pass.

* `releaseLoop` / `releaseOpcodeDefinition` — the names it frees, and the array when it is freed;
* `Built.unused` / `Built.named` — the elements behind the assigned fields have no name, the
  assigned ones do;
* `release_frees_no_name` — so the names of the fields are never freed, and where the array is full
  the function reads behind it.
-/

/-- The loop of `release_opcode_definition`, `todo` passes from its end, where `k` is
    `def->assigned_fields`: what it hands to `free`, and the array afterwards. -/
def releaseLoop (k : ℕ) :
    ℕ → List CMPSC311FieldDef → Option (List (Option String) × List CMPSC311FieldDef)
  | 0, fielddefs => some ([], fielddefs)
  | todo + 1, fielddefs => do
      let f ← fielddefs[k]?
      let (freed, fielddefs) ← releaseLoop k todo (fielddefs.set k { f with name := none })
      return (f.name :: freed, fielddefs)

/-- What `release_opcode_definition` returns, the names that it frees and the array that it frees
    then. -/
structure Released where
  ret : ℤ
  freed : List (Option String)
  fielddefs : List CMPSC311FieldDef
  deriving DecidableEq

/-- `release_opcode_definition`. -/
def releaseOpcodeDefinition (d : Cmpsc311OpcodeDef) : Option Released := do
  let (freed, fielddefs) ← releaseLoop d.assignedFields.toNat d.assignedFields.toNat d.fielddefs
  return ⟨0, freed, fielddefs⟩

variable {W : UInt8 → Prop} {title : String} {n : UInt8} {d : Cmpsc311OpcodeDef}

/-- The elements behind the assigned fields are as `calloc` left them. -/
theorem Built.unused (h : Built W title n d) {k : ℕ} (hk : d.assignedFields.toNat ≤ k)
    (hlt : k < d.fielddefs.length) : d.fielddefs[k] = .zero := by
  induction h with
  | init => exact List.getElem_replicate ..
  | @add d d' name id width ret hd hadd _ ih =>
    rw [addOpcodeField_eq (layout_of_built hd)] at hadd
    split_ifs at hadd with hnew hroom hin
    · obtain ⟨-, rfl⟩ := Prod.mk.inj (Option.some.inj hadd)
      exact ih hk hlt
    · obtain ⟨-, rfl⟩ := Prod.mk.inj (Option.some.inj hadd)
      exact ih hk hlt
    · obtain ⟨-, rfl⟩ := Prod.mk.inj (Option.some.inj hadd)
      rw [assignedFields_assign hin] at hk
      have hlt' : k < d.fielddefs.length := by
        rw [Cmpsc311OpcodeDef.assign, List.length_set] at hlt
        exact hlt
      -- the new field is in front of the element
      have hother : (d.assign (d.newField name id width)).fielddefs[k] = d.fielddefs[k] :=
        List.getElem_set_ne (by omega) _
      rw [hother]
      exact ih (by omega) hlt'

/-- The assigned fields have names: `strdup` has copied them, and only `release_opcode_definition`
    takes them away. -/
theorem Built.named (h : Built W title n d) {f : CMPSC311FieldDef} (hf : f ∈ d.assigned) :
    ∃ name, f.name = some name := by
  induction h with
  | init => exact absurd hf (by simp [initOpcodeDefinition, assigned])
  | @add d d' name id width ret hd hadd _ ih =>
    rw [addOpcodeField_eq (layout_of_built hd)] at hadd
    split_ifs at hadd with hnew hroom hin
    · obtain ⟨-, rfl⟩ := Prod.mk.inj (Option.some.inj hadd)
      exact ih hf
    · obtain ⟨-, rfl⟩ := Prod.mk.inj (Option.some.inj hadd)
      exact ih hf
    · obtain ⟨-, rfl⟩ := Prod.mk.inj (Option.some.inj hadd)
      rw [assigned_assign hin, List.mem_append, List.mem_singleton] at hf
      rcases hf with hf | rfl
      · exact ih hf
      · exact ⟨name, rfl⟩

/-- Behind the end of the array there is nothing to free. -/
theorem releaseLoop_outside {k todo : ℕ} {fielddefs : List CMPSC311FieldDef} (htodo : 0 < todo)
    (hk : fielddefs.length ≤ k) : releaseLoop k todo fielddefs = none := by
  obtain ⟨todo, rfl⟩ := Nat.exists_eq_succ_of_ne_zero (Nat.ne_of_gt htodo)
  unfold releaseLoop
  rw [List.getElem?_eq_none hk]
  rfl

/-- In the array, an element without a name is looked at again and again. -/
theorem releaseLoop_zero {k todo : ℕ} {fielddefs : List CMPSC311FieldDef}
    (hk : k < fielddefs.length) (hzero : fielddefs[k] = .zero) :
    releaseLoop k todo fielddefs = some (List.replicate todo none, fielddefs) := by
  induction todo with
  | zero => rfl
  | succ todo ih =>
    have hset : fielddefs.set k { fielddefs[k] with name := none } = fielddefs := by
      have hsame : ({ fielddefs[k] with name := none } : CMPSC311FieldDef) = fielddefs[k] := by
        rw [hzero]
        rfl
      rw [hsame, List.set_getElem_self]
    have hname : fielddefs[k].name = none := by
      rw [hzero]
      rfl
    unfold releaseLoop
    simp only [List.getElem?_eq_getElem hk, Option.bind_eq_bind, Option.bind_some, hset, ih, hname]
    rfl

/-- **Release.**  Of every definition that is built, `release_opcode_definition` frees no name of a
    field, although every field has one; and it reads behind the array exactly if all its elements
    are assigned and there are any. -/
theorem release_frees_no_name (h : Built W title n d) :
    releaseOpcodeDefinition d
        = (if d.assignedFields = 0 ∨ d.assignedFields < d.numFields then
            some ⟨0, List.replicate d.assignedFields.toNat none, d.fielddefs⟩
          else none) ∧
      ∀ f ∈ d.assigned, ∃ name, f.name = some name := by
  -- every pass looks at the element with the index `assigned_fields`
  refine ⟨?_, fun f hf => h.named hf⟩
  unfold releaseOpcodeDefinition
  by_cases hempty : d.assignedFields = 0
  · rw [if_pos (.inl hempty), hempty]
    rfl
  by_cases hroom : d.assignedFields < d.numFields
  · -- it is one that is not assigned, and without a name
    have hlt : d.assignedFields.toNat < d.fielddefs.length := by
      rw [d.length_fielddefs]
      exact UInt8.lt_iff_toNat_lt.mp hroom
    rw [if_pos (.inr hroom), releaseLoop_zero hlt (h.unused (Nat.le_refl _) hlt)]
    rfl
  · -- it lies behind the array, and the first pass reads there
    have hfull : d.fielddefs.length ≤ d.assignedFields.toNat := by
      rw [d.length_fielddefs]
      exact UInt8.le_iff_toNat_le.mp (UInt8.not_lt.mp hroom)
    have hsome : 0 < d.assignedFields.toNat := by
      refine Nat.pos_of_ne_zero fun hzero => hempty ?_
      rw [← UInt8.toNat_inj, hzero]
      rfl
    rw [if_neg (not_or.mpr ⟨hempty, hroom⟩), releaseLoop_outside hsome hfull]
    rfl

/-- The definition of the unit test's first part, whose array is full. -/
theorem release_frees_no_name_easy : releaseOpcodeDefinition easyDefinition = none := by
  obtain ⟨hrelease, -⟩ := release_frees_no_name built_easyDefinition
  rw [hrelease, if_neg (by decide)]

end NetworkExperiment
