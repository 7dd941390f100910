import NetworkExperiment.Opcode.Definition

namespace NetworkExperiment

open Cmpsc311OpcodeDef

/-!
# Sequences of field requests

A definition is filled by a sequence of `add_opcode_field` calls with arbitrary arguments
(`cmpsc311_opcode.c`).  What the sequence should lead to is told without a definition:

* `FieldRequest` / `addOpcodeFields` — the arguments of a call, and the calls one after the other;
* `Acceptable` / `accepted` — the requests that have a new name, a new identifier and room in the
  word, when those before them have been granted;
* `addOpcodeField_records` / `addOpcodeFields_eq` — the definition records the accepted requests,
  as long as the array has room for them;
* `addOpcodeFields_layout` — the fields of the accepted requests tile the top of the word;
* `staysInArray_iff` — the calls stay inside the array exactly as long as no more than
  `num_fields` requests are accepted: nothing else in `add_opcode_field` bounds the index.
-/

/-! ### Requests -/

/-- The arguments of a call of `add_opcode_field`. -/
structure FieldRequest where
  name : String
  id : UInt8
  width : UInt8
  deriving DecidableEq, Repr

/-- The bits that a list of requests asks for, as an exact number. -/
def requestedBits (taken : List FieldRequest) : ℕ := (taken.map (·.width.toNat)).sum

/-- The request has a new name and a new identifier, and the word has room for it. -/
def Acceptable (taken : List FieldRequest) (r : FieldRequest) : Prop :=
  (∀ q ∈ taken, q.name ≠ r.name ∧ q.id ≠ r.id) ∧
    requestedBits taken + r.width.toNat ≤ opcodeBitwidth

instance (taken : List FieldRequest) (r : FieldRequest) : Decidable (Acceptable taken r) :=
  inferInstanceAs (Decidable (_ ∧ _))

/-- The requests that have been granted after some more of them have been made. -/
def accepted (taken : List FieldRequest) : List FieldRequest → List FieldRequest
  | [] => taken
  | r :: rs => accepted (if Acceptable taken r then taken ++ [r] else taken) rs

/-- The calls one after the other: the return code of each and the definition at the end. -/
def addOpcodeFields (d : Cmpsc311OpcodeDef) :
    List FieldRequest → Option (List ℤ × Cmpsc311OpcodeDef)
  | [] => some ([], d)
  | r :: rs => do
      let (ret, d) ← addOpcodeField d r.name r.id r.width
      let (rets, d) ← addOpcodeFields d rs
      return (ret :: rets, d)

variable {taken rs : List FieldRequest} {r : FieldRequest} {d d' : Cmpsc311OpcodeDef}
  {title : String} {n : UInt8}

/-- What has been granted stays granted: later requests are added behind it. -/
theorem length_le_accepted (taken rs : List FieldRequest) :
    taken.length ≤ (accepted taken rs).length := by
  induction rs generalizing taken with
  | nil => exact le_rfl
  | cons r rs ih =>
    unfold accepted
    split_ifs
    · have hle := ih (taken ++ [r])
      rw [List.length_append] at hle
      exact (Nat.le_add_right _ _).trans hle
    · exact ih taken

theorem accepted_append (taken rs more : List FieldRequest) :
    accepted taken (rs ++ more) = accepted (accepted taken rs) more := by
  induction rs generalizing taken with
  | nil => rfl
  | cons r rs ih =>
    rw [List.cons_append, accepted, accepted]
    exact ih _

/-! ### The definition records what has been granted -/

/-- What a field keeps of the request for it. -/
def CMPSC311FieldDef.key (f : CMPSC311FieldDef) : Option String × UInt8 × UInt8 :=
  (f.name, f.fieldId, f.width)

/-- The same of the request. -/
def FieldRequest.key (r : FieldRequest) : Option String × UInt8 × UInt8 :=
  (some r.name, r.id, r.width)

/-- The definition has room for `n` fields, keeps the layout, and its fields are those of the
    requests, in their order. -/
structure Records (n : UInt8) (taken : List FieldRequest) (d : Cmpsc311OpcodeDef) : Prop where
  layout : d.Layout fun _ => True
  numFields_eq : d.numFields = n
  keys : d.assigned.map (·.key) = taken.map (·.key)

theorem records_init : Records n [] (initOpcodeDefinition title n) where
  layout := layout_init
  numFields_eq := rfl
  keys := by simp [initOpcodeDefinition, assigned]

namespace Records

theorem length_assigned (h : Records n taken d) : d.assigned.length = taken.length := by
  simpa using congrArg List.length h.keys

/-- The counter of the assigned fields counts the granted requests. -/
theorem assignedFields_eq (h : Records n taken d) : d.assignedFields.toNat = taken.length := by
  rw [← h.length_assigned, assigned, List.length_take, Nat.min_eq_left h.layout.assigned_le]

/-- The array has `n` elements. -/
theorem length_fielddefs (h : Records n taken d) : d.fielddefs.length = n.toNat := by
  rw [d.length_fielddefs, h.numFields_eq]

/-- The first fields take the bits that the first requests ask for. -/
theorem widthSum_eq (h : Records n taken d) (k : ℕ) :
    d.widthSum k = requestedBits (taken.take k) := by
  have hwidths : (d.assigned.take k).map (·.key.2.2.toNat)
      = (taken.take k).map (·.key.2.2.toNat) := by
    have hkeys := congrArg (fun keys => (keys.take k).map (·.2.2.toNat)) h.keys
    simpa only [← List.map_take, List.map_map, Function.comp_def] using hkeys
  exact congrArg List.sum hwidths

/-- The used bits are those that have been asked for; they stay within the word, so the counter of
    8 bits holds them. -/
theorem usedBits_eq (h : Records n taken d) : d.usedBits.toNat = requestedBits taken := by
  rw [h.layout.used_eq, h.widthSum_eq, h.length_assigned, List.take_length]

/-- The check for duplicates compares the request with those that have been granted, by name and by
    identifier. -/
theorem duplicate_iff (h : Records n taken d) (r : FieldRequest) :
    (∃ f ∈ d.assigned, f.name = some r.name ∨ f.fieldId = r.id) ↔
      ∃ q ∈ taken, q.name = r.name ∨ q.id = r.id := by
  have hfields : (∃ f ∈ d.assigned, f.name = some r.name ∨ f.fieldId = r.id) ↔
      ∃ k ∈ d.assigned.map (·.key), k.1 = some r.name ∨ k.2.1 = r.id := by
    simp [CMPSC311FieldDef.key]
  rw [hfields, h.keys]
  simp [FieldRequest.key]

/-- Both checks together tell whether the request is acceptable. -/
theorem acceptable_iff (h : Records n taken d) (r : FieldRequest) :
    Acceptable taken r ↔
      (¬ ∃ f ∈ d.assigned, f.name = some r.name ∨ f.fieldId = r.id) ∧
        ¬ d.usedBits.toNat + r.width.toNat > opcodeBitwidth := by
  rw [h.duplicate_iff, h.usedBits_eq, Nat.not_lt]
  unfold Acceptable
  push Not
  rfl

/-- An assignment grants one more request: the next element holds it, and the others stay. -/
theorem assign (h : Records n taken d) (hr : Acceptable taken r)
    (hlt : d.assignedFields.toNat < d.fielddefs.length) :
    Records n (taken ++ [r]) (d.assign (d.newField r.name r.id r.width)) where
  layout := by
    obtain ⟨hnew, hroom⟩ := (h.acceptable_iff r).mp hr
    exact h.layout.assign hnew (Nat.not_lt.mp hroom) hlt trivial
  numFields_eq := h.numFields_eq
  keys := by
    rw [assigned_assign hlt, List.map_append, List.map_append, h.keys]
    rfl

end Records

/-- What a call does to a definition that records the requests before it: it refuses what is not
    acceptable, and it writes the next element otherwise, wherever that lies. -/
theorem addOpcodeField_records (h : Records n taken d) (r : FieldRequest) :
    addOpcodeField d r.name r.id r.width =
      if Acceptable taken r then
        if taken.length < n.toNat then some (0, d.assign (d.newField r.name r.id r.width)) else none
      else some (-1, d) := by
  rw [addOpcodeField_eq h.layout, h.assignedFields_eq, h.length_fielddefs]
  by_cases hr : Acceptable taken r
  · obtain ⟨hnew, hroom⟩ := (h.acceptable_iff r).mp hr
    rw [if_pos hr, if_neg hnew, if_neg hroom]
  · rw [if_neg hr]
    have hbad := mt (h.acceptable_iff r).mpr hr
    split_ifs with hnew hroom
    · rfl
    · rfl
    · exact absurd ⟨hnew, hroom⟩ hbad
    · exact absurd ⟨hnew, hroom⟩ hbad

/-- The return codes of the calls. -/
def verdicts (taken : List FieldRequest) : List FieldRequest → List ℤ
  | [] => []
  | r :: rs =>
      if Acceptable taken r then 0 :: verdicts (taken ++ [r]) rs else -1 :: verdicts taken rs

/-- The calls have a result exactly if the array has room for all that is accepted. -/
theorem addOpcodeFields_eq (h : Records n taken d) (rs : List FieldRequest)
    (hroom : (accepted taken rs).length ≤ n.toNat) :
    ∃ d', addOpcodeFields d rs = some (verdicts taken rs, d') ∧
      Records n (accepted taken rs) d' := by
  induction rs generalizing taken d with
  | nil => exact ⟨d, rfl, h⟩
  | cons r rs ih =>
    rw [accepted] at hroom ⊢
    rw [addOpcodeFields, addOpcodeField_records h, verdicts]
    by_cases hr : Acceptable taken r
    · -- what is granted stays granted, so there is room for one more now
      simp only [if_pos hr] at hroom ⊢
      have hlt : taken.length < n.toNat := by
        have hle := length_le_accepted (taken ++ [r]) rs
        rw [List.length_append, List.length_singleton] at hle
        omega
      have hindex : d.assignedFields.toNat < d.fielddefs.length := by
        rw [h.assignedFields_eq, h.length_fielddefs]
        exact hlt
      obtain ⟨d', hcalls, hd'⟩ := ih (h.assign hr hindex) hroom
      refine ⟨d', ?_, hd'⟩
      rw [if_pos hlt]
      simp only [Option.bind_eq_bind, Option.bind_some, hcalls]
      rfl
    · simp only [if_neg hr] at hroom ⊢
      obtain ⟨d', hcalls, hd'⟩ := ih h hroom
      refine ⟨d', ?_, hd'⟩
      simp only [Option.bind_eq_bind, Option.bind_some, hcalls]
      rfl

/-- Beyond that the calls write outside the array: the first one that is accepted too many does
    so. -/
theorem addOpcodeFields_eq_none (h : Records n taken d) (rs : List FieldRequest)
    (htaken : taken.length ≤ n.toNat) (hfull : n.toNat < (accepted taken rs).length) :
    addOpcodeFields d rs = none := by
  induction rs generalizing taken d with
  | nil => exact absurd hfull (Nat.not_lt.mpr htaken)
  | cons r rs ih =>
    rw [accepted] at hfull
    rw [addOpcodeFields, addOpcodeField_records h]
    by_cases hr : Acceptable taken r
    · rw [if_pos hr] at hfull ⊢
      by_cases hlt : taken.length < n.toNat
      · have hindex : d.assignedFields.toNat < d.fielddefs.length := by
          rw [h.assignedFields_eq, h.length_fielddefs]
          exact hlt
        have htaken' : (taken ++ [r]).length ≤ n.toNat := by
          rw [List.length_append]
          exact hlt
        rw [if_pos hlt]
        simp only [Option.bind_eq_bind, Option.bind_some, ih (h.assign hr hindex) htaken' hfull,
          Option.bind_none]
      · -- the array is full, and the call writes behind it
        rw [if_neg hlt]
        rfl
    · rw [if_neg hr] at hfull ⊢
      simp only [Option.bind_eq_bind, Option.bind_some, ih h htaken hfull, Option.bind_none]

/-- One success is returned for each request that is granted, and a failure for each of the
    others. -/
theorem count_verdicts (taken rs : List FieldRequest) :
    taken.length + (verdicts taken rs).count 0 = (accepted taken rs).length := by
  induction rs generalizing taken with
  | nil => rfl
  | cons r rs ih =>
    rw [verdicts, accepted]
    by_cases hr : Acceptable taken r
    · simp only [if_pos hr]
      rw [← ih, List.count_cons_self, List.length_append, List.length_singleton]
      omega
    · simp only [if_neg hr]
      rw [← ih, List.count_cons_of_ne (by decide)]

/-! ### The tiling -/

/-- The assigned fields cover the used bits, from the top of the word down. -/
theorem Cmpsc311OpcodeDef.Layout.covers_iff {W : UInt8 → Prop} (h : d.Layout W) {b : ℕ}
    (hb : b < opcodeBitwidth) :
    (∃ f ∈ d.assigned, f.field.Covers b) ↔ opcodeBitwidth - d.usedBits.toNat ≤ b := by
  have hused := h.used_le
  rw [h.used_eq] at hused ⊢
  constructor
  · rintro ⟨f, hf, hstart, -⟩
    obtain ⟨i, hi, rfl⟩ := List.getElem_of_mem hf
    have hle : d.widthSum (i + 1) ≤ d.widthSum d.assigned.length := widthSum_mono hi
    have hfrom : d.assigned[i].startBit.toNat ≤ b := hstart
    rw [h.start_eq i hi] at hfrom
    omega
  · -- the first field that reaches down to the bit covers it
    have hreach : ∀ k ≤ d.assigned.length, opcodeBitwidth - d.widthSum k ≤ b →
        ∃ f ∈ d.assigned, f.field.Covers b := by
      intro k hk hle
      induction k with
      | zero =>
        have hzero : d.widthSum 0 = 0 := by simp [widthSum]
        omega
      | succ k ih =>
        by_cases hbefore : opcodeBitwidth - d.widthSum k ≤ b
        · -- a field before it reaches as far
          exact ih (Nat.le_of_succ_le hk) hbefore
        · have hstart := h.start_eq k hk
          have hsum := widthSum_succ hk
          have hmono : d.widthSum (k + 1) ≤ d.widthSum d.assigned.length := widthSum_mono hk
          refine ⟨d.assigned[k], List.getElem_mem hk, ?_, ?_⟩
          · show d.assigned[k].startBit.toNat ≤ b
            omega
          · show b < d.assigned[k].startBit.toNat + d.assigned[k].width.toNat
            omega
    exact hreach d.assigned.length le_rfl

/-- The layout of the definition that has granted the requests `taken`. -/
structure TilesTop (taken : List FieldRequest) (d : Cmpsc311OpcodeDef) : Prop where
  /-- The fields are those of the requests, in their order. -/
  keys : d.assigned.map (·.key) = taken.map (·.key)
  /-- The used bits are the sum of the widths, -/
  used_eq : d.usedBits.toNat = requestedBits taken
  /-- for which the word has room. -/
  used_le : d.usedBits.toNat ≤ opcodeBitwidth
  /-- Each field begins where the widths up to its own end, counted from the top. -/
  start_eq : ∀ i (hi : i < d.assigned.length),
    d.assigned[i].startBit.toNat = opcodeBitwidth - requestedBits (taken.take (i + 1))
  /-- No bit belongs to two fields, -/
  disjoint : ∀ f ∈ d.assigned, ∀ g ∈ d.assigned, f ≠ g → f.field.Disjoint g.field
  /-- and the bits that belong to one are the top `used_bits` bits. -/
  covers_iff : ∀ b < opcodeBitwidth,
    (∃ f ∈ d.assigned, f.field.Covers b) ↔ opcodeBitwidth - d.usedBits.toNat ≤ b
  /-- Names are distinct, -/
  names : (d.assigned.map (·.name)).Nodup
  /-- and so are identifiers. -/
  ids : (d.assigned.map (·.fieldId)).Nodup

theorem Records.tilesTop (h : Records n taken d) : TilesTop taken d where
  keys := h.keys
  used_eq := h.usedBits_eq
  used_le := h.layout.used_le
  start_eq := by
    intro i hi
    rw [h.layout.start_eq i hi, h.widthSum_eq]
  disjoint := by
    intro f hf g hg hne
    apply h.layout.disjoint hf hg
    intro hid
    exact hne (List.inj_on_of_nodup_map h.layout.ids hf hg hid)
  covers_iff := fun _ hb => h.layout.covers_iff hb
  names := h.layout.names
  ids := h.layout.ids

/-- **Field layout.**  Any sequence of requests of which no more than `n` succeed leaves a
    definition whose fields tile the top of the word in the order of the requests that succeeded.
    The next call, if it is within the bound as well, succeeds exactly if its name and its
    identifier are new and the word has room for its width, and leaves the definition alone
    otherwise. -/
theorem addOpcodeFields_layout (title : String) (n : UInt8) (rs : List FieldRequest)
    (hroom : (accepted [] rs).length ≤ n.toNat) :
    ∃ d, addOpcodeFields (initOpcodeDefinition title n) rs = some (verdicts [] rs, d) ∧
      (verdicts [] rs).count 0 = (accepted [] rs).length ∧
      TilesTop (accepted [] rs) d ∧
      ∀ r, (accepted [] (rs ++ [r])).length ≤ n.toNat →
        ∃ ret d', addOpcodeField d r.name r.id r.width = some (ret, d') ∧
          (ret = 0 ↔ (∀ f ∈ d.assigned, f.name ≠ some r.name ∧ f.fieldId ≠ r.id) ∧
            d.usedBits.toNat + r.width.toNat ≤ opcodeBitwidth) ∧
          (ret = 0 → TilesTop (accepted [] rs ++ [r]) d') ∧
          (ret ≠ 0 → ret = -1 ∧ d' = d) := by
  obtain ⟨d, hcalls, hd⟩ := addOpcodeFields_eq records_init rs hroom
  have hcount := count_verdicts [] rs
  rw [List.length_nil, Nat.zero_add] at hcount
  refine ⟨d, hcalls, hcount, hd.tilesTop, ?_⟩
  intro r hnext
  have hiff := hd.acceptable_iff r
  push Not at hiff
  rw [accepted_append, accepted, accepted] at hnext
  rw [addOpcodeField_records hd]
  by_cases hr : Acceptable (accepted [] rs) r
  · rw [if_pos hr, List.length_append, List.length_singleton] at hnext
    have hindex : d.assignedFields.toNat < d.fielddefs.length := by
      rw [hd.assignedFields_eq, hd.length_fielddefs]
      exact hnext
    rw [if_pos hr, if_pos (Nat.lt_of_succ_le hnext)]
    exact ⟨0, _, rfl, iff_of_true rfl (hiff.mp hr), fun _ => (hd.assign hr hindex).tilesTop,
      fun hne => absurd rfl hne⟩
  · rw [if_neg hr]
    exact ⟨-1, d, rfl, iff_of_false (by decide) (mt hiff.mpr hr), fun h => absurd h (by decide),
      fun _ => ⟨rfl, rfl⟩⟩

/-- Two fields of 33 and 31 bits that fill the word, a duplicate between them, and a third field
    that is refused behind them. -/
theorem addOpcodeFields_layout_full_word :
    ∃ d, addOpcodeFields (initOpcodeDefinition "op" 2)
        [⟨"high", 7, 33⟩, ⟨"high", 8, 1⟩, ⟨"low", 0, 31⟩] = some ([0, -1, 0], d) ∧
      TilesTop [⟨"high", 7, 33⟩, ⟨"low", 0, 31⟩] d := by
  obtain ⟨d, hcalls, -, htiles, -⟩ := addOpcodeFields_layout "op" 2
    [⟨"high", 7, 33⟩, ⟨"high", 8, 1⟩, ⟨"low", 0, 31⟩] (by decide)
  exact ⟨d, hcalls, htiles⟩

/-! ### The bounds of the array -/

/-- After each of the calls, nothing has been written outside the array, the counter of the
    assigned fields has counted the successful calls and does not exceed `num_fields`, and every
    loop over the assigned fields stays inside the array. -/
def StaysInArray (title : String) (n : UInt8) (rs : List FieldRequest) : Prop :=
  ∀ k, ∃ rets d, addOpcodeFields (initOpcodeDefinition title n) (rs.take k) = some (rets, d) ∧
    d.assignedFields.toNat = rets.count 0 ∧ d.assignedFields ≤ d.numFields ∧
    ∀ (α : Type) (visit : CMPSC311FieldDef → Option α), (d.walkFields visit).isSome

/-- **Bounds of the array.**  The calls stay inside the array exactly if no more than `num_fields`
    of the requests have a new name, a new identifier and room in the word. -/
theorem staysInArray_iff (title : String) (n : UInt8) (rs : List FieldRequest) :
    StaysInArray title n rs ↔ (accepted [] rs).length ≤ n.toNat := by
  constructor
  · intro h
    by_contra hfull
    -- the call with one too many has no result, and neither have those behind it
    obtain ⟨rets, d, hcalls, -⟩ := h rs.length
    rw [List.take_length,
      addOpcodeFields_eq_none records_init rs (Nat.zero_le _) (Nat.not_le.mp hfull)] at hcalls
    cases hcalls
  · intro hroom k
    have hprefix : (accepted [] (rs.take k)).length ≤ n.toNat := by
      have hle := length_le_accepted (accepted [] (rs.take k)) (rs.drop k)
      rw [← accepted_append, List.take_append_drop] at hle
      exact hle.trans hroom
    obtain ⟨d, hcalls, hd⟩ := addOpcodeFields_eq records_init (rs.take k) hprefix
    have hcount := count_verdicts [] (rs.take k)
    rw [List.length_nil, Nat.zero_add] at hcount
    refine ⟨_, d, hcalls, ?_, ?_, ?_⟩
    · rw [hd.assignedFields_eq, hcount]
    · rw [UInt8.le_iff_toNat_le, hd.assignedFields_eq, hd.numFields_eq]
      exact hprefix
    · intro α visit
      rw [walkFields_eq visit hd.layout.assigned_le]
      rfl

/-- With room for one field, a second one that is new and fits in the word is written behind the
    array. -/
theorem not_staysInArray_second_field :
    ¬ StaysInArray "op" 1 [⟨"first", 0, 8⟩, ⟨"second", 1, 8⟩] := by
  intro h
  obtain ⟨rets, d, hcalls, -⟩ := h 2
  have hnone : addOpcodeFields (initOpcodeDefinition "op" 1)
      [⟨"first", 0, 8⟩, ⟨"second", 1, 8⟩] = none := by decide +kernel
  rw [List.take_of_length_le (by decide), hnone] at hcalls
  cases hcalls

end NetworkExperiment
