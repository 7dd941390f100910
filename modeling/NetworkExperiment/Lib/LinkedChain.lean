import Mathlib.Data.List.Nodup
import Mathlib.Logic.Function.Basic

namespace LinkedChains

/-!
# Doubly linked chains in a memory of cells

A memory is a partial map from addresses to cells; a cell holds a link to the next cell, a link to
the previous one and a payload.

* `Links` — how a type of cells stores its links and its payload;
* `Segment` — the cells from one pointer up to another, with both links in order;
* `Chain` — a segment that begins without a previous cell and ends at `NULL`;
* `linkNext` / `linkPrev` — the assignments `p->next = q` and `p->prev = q`, skipped where `p` is
  `NULL`;
* `Segment.insert` / `Segment.remove` — the four-case surgeries of a doubly linked list: the chain
  afterwards, whether the cell is the only one, the first, the last or one in the middle;
* `Segment.frame` — a chain of untouched cells is still one.
-/

variable {A C V : Type*}

/-- How a cell stores its links and its payload. -/
structure Links (A C V : Type*) where
  /-- The link to the next cell. -/
  next : C → Option A
  /-- The link to the previous cell. -/
  prev : C → Option A
  /-- What the cell holds. -/
  payload : C → V
  /-- The cell with another link to the next one. -/
  setNext : C → Option A → C
  /-- The cell with another link to the previous one. -/
  setPrev : C → Option A → C
  next_setNext : ∀ c q, next (setNext c q) = q
  prev_setNext : ∀ c q, prev (setNext c q) = prev c
  payload_setNext : ∀ c q, payload (setNext c q) = payload c
  next_setPrev : ∀ c q, next (setPrev c q) = next c
  prev_setPrev : ∀ c q, prev (setPrev c q) = q
  payload_setPrev : ∀ c q, payload (setPrev c q) = payload c

variable (L : Links A C V)

/-- The cells `l` lie between the pointers `p` and `q`: `p` points to the first of them (or is `q`,
    if there is none), each cell's `prev` is the cell before it, where `b` is before the first, and
    `t` is the last cell (or `b`). -/
def Segment (mem : A → Option C) : Option A → Option A → List (A × V) → Option A → Option A → Prop
  | p, b, [], q, t => p = q ∧ b = t
  | p, b, (a, v) :: l, q, t =>
      p = some a ∧ ∃ c, mem a = some c ∧ L.payload c = v ∧ L.prev c = b ∧
        Segment mem (L.next c) (some a) l q t

/-- A whole list: the first cell has no previous one and the last has no next one. -/
def Chain (mem : A → Option C) (p : Option A) (l : List (A × V)) : Prop :=
  ∃ t, Segment L mem p none l none t

variable {L} {mem mem' : A → Option C} {p b q t m u : Option A} {l l₁ l₂ : List (A × V)}

/-! ### Parts of a segment -/

/-- A segment is cut at any place into two. -/
theorem segment_append : Segment L mem p b (l₁ ++ l₂) q t ↔
    ∃ m u, Segment L mem p b l₁ m u ∧ Segment L mem m u l₂ q t := by
  induction l₁ generalizing p b with
  | nil =>
    constructor
    · intro h
      exact ⟨p, b, ⟨rfl, rfl⟩, h⟩
    · rintro ⟨m, u, ⟨rfl, rfl⟩, h⟩
      exact h
  | cons x l₁ ih =>
    obtain ⟨a, v⟩ := x
    constructor
    · rintro ⟨hp, c, hc, hv, hb, h⟩
      obtain ⟨m, u, h₁, h₂⟩ := ih.mp h
      exact ⟨m, u, ⟨hp, c, hc, hv, hb, h₁⟩, h₂⟩
    · rintro ⟨m, u, ⟨hp, c, hc, hv, hb, h₁⟩, h₂⟩
      exact ⟨hp, c, hc, hv, hb, ih.mpr ⟨m, u, h₁, h₂⟩⟩

/-- The segment does not depend on cells that are not in it. -/
theorem Segment.frame (h : Segment L mem p b l q t) (heq : ∀ x ∈ l, mem' x.1 = mem x.1) :
    Segment L mem' p b l q t := by
  induction l generalizing p b with
  | nil => exact h
  | cons x l ih =>
    obtain ⟨a, v⟩ := x
    obtain ⟨hp, c, hc, hv, hb, h⟩ := h
    refine ⟨hp, c, ?_, hv, hb, ih h fun y hy => heq y (List.mem_cons_of_mem _ hy)⟩
    rw [← hc]
    exact heq (a, v) List.mem_cons_self

/-- The last cell of a segment that is not empty is one of its cells. -/
theorem Segment.exists_last (h : Segment L mem p b l q t) (hne : l ≠ []) :
    ∃ x ∈ l, t = some x.1 := by
  induction l generalizing p b with
  | nil => exact absurd rfl hne
  | cons x l ih =>
    obtain ⟨a, v⟩ := x
    obtain ⟨-, c, -, -, -, h⟩ := h
    by_cases hl : l = []
    · subst hl
      exact ⟨(a, v), List.mem_cons_self, h.2.symm⟩
    · obtain ⟨y, hy, ht⟩ := ih h hl
      exact ⟨y, List.mem_cons_of_mem _ hy, ht⟩

/-- The first cell of a segment that is not empty is the one its pointer names. -/
theorem Segment.exists_first (h : Segment L mem p b l q t) (hne : l ≠ []) :
    ∃ x ∈ l, p = some x.1 := by
  cases l with
  | nil => exact absurd rfl hne
  | cons x l => exact ⟨x, List.mem_cons_self, h.1⟩

/-- No cell outside a segment at the front is its last one. -/
theorem Segment.last_ne (h : Segment L mem p none l q t) {a : A} (ha : a ∉ l.map Prod.fst) :
    t ≠ some a := by
  rintro rfl
  by_cases hl : l = []
  · subst hl
    exact absurd h.2 (by simp)
  · obtain ⟨x, hx, hax⟩ := h.exists_last hl
    exact ha (List.mem_map.mpr ⟨x, hx, (Option.some.inj hax).symm⟩)

/-- No cell outside a segment at the end is its first one. -/
theorem Segment.first_ne (h : Segment L mem p b l none t) {a : A} (ha : a ∉ l.map Prod.fst) :
    p ≠ some a := by
  rintro rfl
  by_cases hl : l = []
  · subst hl
    exact absurd h.1 (by simp)
  · obtain ⟨x, hx, hax⟩ := h.exists_first hl
    exact ha (List.mem_map.mpr ⟨x, hx, (Option.some.inj hax).symm⟩)

/-! ### Assignments to links -/

variable [DecidableEq A]

/-- `p->next = q`, where `p` is not `NULL`. -/
def linkNext (L : Links A C V) (mem : A → Option C) (p q : Option A) : A → Option C :=
  match p with
  | none => mem
  | some a => Function.update mem a ((mem a).map (L.setNext · q))

/-- `p->prev = q`, where `p` is not `NULL`. -/
def linkPrev (L : Links A C V) (mem : A → Option C) (p q : Option A) : A → Option C :=
  match p with
  | none => mem
  | some a => Function.update mem a ((mem a).map (L.setPrev · q))

/-- An assignment changes no cell but the one it is made to. -/
theorem linkNext_of_ne {a : A} (h : p ≠ some a) : linkNext L mem p q a = mem a := by
  cases p with
  | none => rfl
  | some x => exact Function.update_of_ne (fun hax => h (congrArg some hax.symm)) _ _

theorem linkPrev_of_ne {a : A} (h : p ≠ some a) : linkPrev L mem p q a = mem a := by
  cases p with
  | none => rfl
  | some x => exact Function.update_of_ne (fun hax => h (congrArg some hax.symm)) _ _

/-- Assigning the `next` of the last cell moves the end of the segment. -/
theorem Segment.linkNext (h : Segment L mem p b l q t) (hne : l ≠ [])
    (hnodup : (l.map Prod.fst).Nodup) (q' : Option A) :
    Segment L (linkNext L mem t q') p b l q' t := by
  induction l generalizing p b with
  | nil => exact absurd rfl hne
  | cons x l ih =>
    obtain ⟨a, v⟩ := x
    obtain ⟨hp, c, hc, hv, hb, h⟩ := h
    rw [List.map_cons, List.nodup_cons] at hnodup
    by_cases hl : l = []
    · -- the cell is the last one
      subst hl
      obtain ⟨-, rfl⟩ := h
      refine ⟨hp, L.setNext c q', ?_, ?_, ?_, ?_⟩
      · rw [LinkedChains.linkNext, Function.update_self, hc, Option.map_some]
      · rw [L.payload_setNext, hv]
      · rw [L.prev_setNext, hb]
      · exact ⟨L.next_setNext c q', rfl⟩
    · -- the last cell is further on
      obtain ⟨y, hy, ht⟩ := h.exists_last hl
      have hya : t ≠ some a := by
        rintro rfl
        rw [Option.some.inj ht] at hnodup
        exact hnodup.1 (List.mem_map.mpr ⟨y, hy, rfl⟩)
      exact ⟨hp, c, by rw [linkNext_of_ne hya, hc], hv, hb, ih h hl hnodup.2⟩

/-- Assigning the `prev` of the first cell changes what is before the segment. -/
theorem Segment.linkPrev (h : Segment L mem p b l q t) (hne : l ≠ [])
    (hnodup : (l.map Prod.fst).Nodup) (b' : Option A) :
    Segment L (linkPrev L mem p b') p b' l q t := by
  cases l with
  | nil => exact absurd rfl hne
  | cons x l =>
    obtain ⟨a, v⟩ := x
    obtain ⟨rfl, c, hc, hv, hb, h⟩ := h
    rw [List.map_cons, List.nodup_cons] at hnodup
    refine ⟨rfl, L.setPrev c b', ?_, ?_, L.prev_setPrev c b', ?_⟩
    · rw [LinkedChains.linkPrev, Function.update_self, hc, Option.map_some]
    · rw [L.payload_setPrev, hv]
    · rw [L.next_setPrev]
      apply h.frame
      intro y hy
      refine linkPrev_of_ne fun hay => hnodup.1 ?_
      rw [Option.some.inj hay]
      exact List.mem_map.mpr ⟨y, hy, rfl⟩

/-! ### Insertion and removal -/

/-- A part at the front, with its end linked to `q'`: where it is empty, it begins at `q'`. -/
theorem Segment.linkEnd (h : Segment L mem p none l q t) (hnodup : (l.map Prod.fst).Nodup)
    (q' : Option A) :
    Segment L (LinkedChains.linkNext L mem t q') (if l = [] then q' else p) none l q' t := by
  by_cases hl : l = []
  · subst hl
    obtain ⟨-, rfl⟩ := h
    exact ⟨if_pos rfl, rfl⟩
  · rw [if_neg hl]
    exact h.linkNext hl hnodup q'

/-- A part at the end, with its beginning linked to `b'`. -/
theorem Segment.linkStart (h : Segment L mem p b l none t) (hnodup : (l.map Prod.fst).Nodup)
    (b' : Option A) : ∃ t', Segment L (LinkedChains.linkPrev L mem p b') p b' l none t' := by
  by_cases hl : l = []
  · subst hl
    obtain ⟨rfl, -⟩ := h
    exact ⟨b', rfl, rfl⟩
  · exact ⟨t, h.linkPrev hl hnodup b'⟩

/-- **Insertion.**  A cell `a` outside both parts that links to the last cell of the one and to the
    first cell of the other, and the two linked to it. -/
theorem Segment.insert (h₁ : Segment L mem p none l₁ m u) (h₂ : Segment L mem m u l₂ none t)
    (hnodup : ((l₁ ++ l₂).map Prod.fst).Nodup) {a : A} (ha : a ∉ (l₁ ++ l₂).map Prod.fst) {c : C}
    (hc : mem a = some c) (hnext : L.next c = m) (hprev : L.prev c = u) :
    Chain L (LinkedChains.linkPrev L (LinkedChains.linkNext L mem u (some a)) m (some a))
      (if l₁ = [] then some a else p) (l₁ ++ (a, L.payload c) :: l₂) := by
  rw [List.map_append, List.nodup_append'] at hnodup
  obtain ⟨hnodup₁, hnodup₂, hdisj⟩ := hnodup
  rw [List.map_append, List.mem_append, not_or] at ha
  -- the first part ends at the new cell
  have hfront := h₁.linkEnd hnodup₁ (some a)
  have hfront' : Segment L (LinkedChains.linkPrev L (LinkedChains.linkNext L mem u (some a)) m
      (some a)) (if l₁ = [] then some a else p) none l₁ (some a) u := by
    apply hfront.frame
    intro x hx
    exact linkPrev_of_ne (h₂.first_ne fun hx₂ => hdisj (List.mem_map.mpr ⟨x, hx, rfl⟩) hx₂)
  -- the second part begins after it
  have hback : Segment L (LinkedChains.linkNext L mem u (some a)) m u l₂ none t := by
    apply h₂.frame
    intro x hx
    exact linkNext_of_ne (h₁.last_ne fun hx₁ => hdisj hx₁ (List.mem_map.mpr ⟨x, hx, rfl⟩))
  obtain ⟨t', hback'⟩ := hback.linkStart hnodup₂ (some a)
  have hcell : LinkedChains.linkPrev L (LinkedChains.linkNext L mem u (some a)) m (some a) a
      = some c := by
    rw [linkPrev_of_ne (h₂.first_ne ha.2), linkNext_of_ne (h₁.last_ne ha.1), hc]
  refine ⟨t', segment_append.mpr ⟨some a, u, hfront', rfl, c, hcell, rfl, hprev, ?_⟩⟩
  rw [hnext]
  exact hback'

/-- **Removal.**  The parts before and after a cell `a`, linked to each other. -/
theorem Segment.remove {a : A} {c : C} (h₁ : Segment L mem p none l₁ (some a) u)
    (h₂ : Segment L mem (L.next c) (some a) l₂ none t)
    (hnodup : ((l₁ ++ l₂).map Prod.fst).Nodup) :
    Chain L (LinkedChains.linkPrev L (LinkedChains.linkNext L mem u (L.next c)) (L.next c) u)
      (if l₁ = [] then L.next c else p) (l₁ ++ l₂) := by
  rw [List.map_append, List.nodup_append'] at hnodup
  obtain ⟨hnodup₁, hnodup₂, hdisj⟩ := hnodup
  have hfront := h₁.linkEnd hnodup₁ (L.next c)
  have hfront' : Segment L (LinkedChains.linkPrev L (LinkedChains.linkNext L mem u (L.next c))
      (L.next c) u) (if l₁ = [] then L.next c else p) none l₁ (L.next c) u := by
    apply hfront.frame
    intro x hx
    exact linkPrev_of_ne (h₂.first_ne fun hx₂ => hdisj (List.mem_map.mpr ⟨x, hx, rfl⟩) hx₂)
  have hback :
      Segment L (LinkedChains.linkNext L mem u (L.next c)) (L.next c) (some a) l₂ none t := by
    apply h₂.frame
    intro x hx
    exact linkNext_of_ne (h₁.last_ne fun hx₁ => hdisj hx₁ (List.mem_map.mpr ⟨x, hx, rfl⟩))
  obtain ⟨t', hback'⟩ := hback.linkStart hnodup₂ u
  exact ⟨t', segment_append.mpr ⟨L.next c, u, hfront', hback'⟩⟩

end LinkedChains
