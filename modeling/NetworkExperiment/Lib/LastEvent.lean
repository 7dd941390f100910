import Mathlib.Data.List.Induction

namespace LastEvents

/-!
# The events of a kind

A log is a list of events, the latest one at its end.  What a component remembers is often decided
by the last event of some kind:

* `lastOf` — the last event that meets a predicate;
* `lastOf_concat_pos` / `lastOf_concat_neg` — an event of the kind replaces it, any other leaves it;
* `lastOf_eq_some` / `lastOf_eq_none` — where it stands in the log.

What a component does is a condition on each of its events and the log in front of it:

* `occurrences` — the events that meet a predicate, each with the log in front of it;
* `occurrences_concat` — an event of the kind is one more occurrence, behind the whole log;
* `mem_occurrences` — the occurrences are the ways to split the log at such an event;
* `occurrences_pairwise` — each has more of the log in front of it than those before it.

What is sorted by a condition comes apart in two lists:

* `Interleaving` — a list whose elements have been put into two others, in order;
* `filter_append_filter` — a condition that stays met once it is met cuts a list in two.
-/

universe u v

variable {α : Type u} {p : α → Prop} [DecidablePred p] {l l' : List α} {a : α}

/-! ### The last event -/

/-- The last event of the log that meets `p`. -/
def lastOf (p : α → Prop) [DecidablePred p] (l : List α) : Option α := (l.filter (p ·)).getLast?

@[simp] theorem lastOf_nil : lastOf p ([] : List α) = none := rfl

/-- An event of the kind is the last one. -/
theorem lastOf_concat_pos (l : List α) (h : p a) : lastOf p (l ++ [a]) = some a := by
  have hkept : [a].filter (p ·) = [a] := List.filter_cons_of_pos (decide_eq_true h)
  unfold lastOf
  rw [List.filter_append, hkept, List.getLast?_concat]

/-- Events of other kinds change nothing. -/
theorem lastOf_append_neg (l : List α) (h : ∀ a ∈ l', ¬ p a) :
    lastOf p (l ++ l') = lastOf p l := by
  have hnone : l'.filter (p ·) = [] := by
    rw [List.filter_eq_nil_iff]
    intro a ha
    simpa using h a ha
  unfold lastOf
  rw [List.filter_append, hnone, List.append_nil]

/-- An event of another kind changes nothing. -/
theorem lastOf_concat_neg (l : List α) (h : ¬ p a) : lastOf p (l ++ [a]) = lastOf p l := by
  apply lastOf_append_neg
  intro b hb
  rwa [List.mem_singleton.mp hb]

/-- There is none if no event is of the kind. -/
theorem lastOf_eq_none : lastOf p l = none ↔ ∀ a ∈ l, ¬ p a := by
  unfold lastOf
  rw [List.getLast?_eq_none_iff, List.filter_eq_nil_iff]
  simp

/-- The last event of the kind is followed by none of the kind. -/
theorem lastOf_eq_some :
    lastOf p l = some a ↔ ∃ l₁ l₂, l = l₁ ++ a :: l₂ ∧ p a ∧ ∀ b ∈ l₂, ¬ p b := by
  constructor
  · -- from the end, where the last event is found
    intro h
    induction l using List.reverseRecOn with
    | nil => exact absurd h (by simp)
    | append_singleton l b ih =>
      by_cases hb : p b
      · rw [lastOf_concat_pos l hb] at h
        obtain rfl := Option.some.inj h
        exact ⟨l, [], rfl, hb, fun c hc => absurd hc List.not_mem_nil⟩
      · rw [lastOf_concat_neg l hb] at h
        obtain ⟨l₁, l₂, rfl, ha, hnone⟩ := ih h
        refine ⟨l₁, l₂ ++ [b], by simp, ha, ?_⟩
        intro c hc
        rcases List.mem_append.mp hc with hc | hc
        · exact hnone c hc
        · rwa [List.mem_singleton.mp hc]
  · rintro ⟨l₁, l₂, rfl, ha, hnone⟩
    have hsplit : l₁ ++ a :: l₂ = (l₁ ++ [a]) ++ l₂ := by simp
    rw [hsplit, lastOf_append_neg _ hnone, lastOf_concat_pos l₁ ha]

/-- The last event of a log that is the image of another, where the events of the kind
    correspond. -/
theorem lastOf_map {β : Type v} {q : β → Prop} [DecidablePred q] {f : α → β}
    (h : ∀ a, q (f a) ↔ p a) (l : List α) : lastOf q (l.map f) = (lastOf p l).map f := by
  have hcomp : ((q · : β → Bool) ∘ f) = (p · : α → Bool) := by
    funext a
    exact decide_eq_decide.mpr (h a)
  unfold lastOf
  rw [List.filter_map, List.getLast?_map, hcomp]

/-! ### Occurrences -/

/-- The events of `l` that meet `p`, each with the log in front of it, which begins with `past`. -/
def occurrencesFrom (p : α → Prop) [DecidablePred p] : List α → List α → List (List α × α)
  | _, [] => []
  | past, a :: l =>
      if p a then (past, a) :: occurrencesFrom p (past ++ [a]) l
      else occurrencesFrom p (past ++ [a]) l

/-- The events of the log that meet `p`, each with the log in front of it. -/
def occurrences (p : α → Prop) [DecidablePred p] (l : List α) : List (List α × α) :=
  occurrencesFrom p [] l

@[simp] theorem occurrences_nil : occurrences p ([] : List α) = [] := rfl

/-- One more event, behind a log that begins with `past`. -/
theorem occurrencesFrom_concat (past l : List α) (a : α) : occurrencesFrom p past (l ++ [a])
    = occurrencesFrom p past l ++ if p a then [(past ++ l, a)] else [] := by
  induction l generalizing past with
  | nil =>
    rw [List.append_nil]
    rfl
  | cons b l ih =>
    have hassoc : past ++ [b] ++ l = past ++ b :: l := by simp
    rw [List.cons_append, occurrencesFrom, occurrencesFrom, ih, hassoc]
    by_cases hb : p b
    · rw [if_pos hb, if_pos hb, List.cons_append]
    · rw [if_neg hb, if_neg hb]

/-- An event of the kind is one more occurrence, behind the whole log. -/
theorem occurrences_concat (l : List α) (a : α) :
    occurrences p (l ++ [a]) = occurrences p l ++ if p a then [(l, a)] else [] :=
  occurrencesFrom_concat [] l a

/-- What holds of all occurrences holds of those so far and, if it is of the kind, of the next
    event. -/
theorem forall_occurrences_concat {P : List α × α → Prop} :
    (∀ x ∈ occurrences p (l ++ [a]), P x) ↔ (∀ x ∈ occurrences p l, P x) ∧ (p a → P (l, a)) := by
  rw [occurrences_concat, List.forall_mem_append]
  by_cases ha : p a
  · rw [if_pos ha, List.forall_mem_singleton, imp_iff_right ha]
  · rw [if_neg ha]
    simp [ha]

/-- The occurrences are the ways to split the log at an event of the kind. -/
theorem mem_occurrences {x : List α × α} :
    x ∈ occurrences p l ↔ p x.2 ∧ ∃ l', l = x.1 ++ x.2 :: l' := by
  induction l using List.reverseRecOn with
  | nil => simp
  | append_singleton l b ih =>
    rw [occurrences_concat, List.mem_append, ih]
    constructor
    · rintro (⟨hx, l', rfl⟩ | hx)
      · exact ⟨hx, l' ++ [b], by simp⟩
      · split at hx
        · rename_i hb
          obtain rfl := List.mem_singleton.mp hx
          exact ⟨hb, [], rfl⟩
        · exact absurd hx List.not_mem_nil
    · rintro ⟨hx, l', hl'⟩
      -- the split is at the new event, or before it
      rcases List.eq_nil_or_concat l' with rfl | ⟨l'', c, rfl⟩
      · obtain ⟨h₁, h₂⟩ := List.append_inj' hl' rfl
        obtain rfl : b = x.2 := List.singleton_inj.mp h₂
        rw [if_pos hx, ← h₁.symm]
        exact .inr (List.mem_singleton.mpr rfl)
      · have hsplit : l ++ [b] = (x.1 ++ x.2 :: l'') ++ [c] := by rw [hl']; simp
        exact .inl ⟨hx, l'', (List.append_inj' hsplit rfl).1⟩

/-- The occurrences in a log that is the image of another. -/
theorem occurrences_map {β : Type v} {q : β → Prop} [DecidablePred q] {f : α → β}
    (h : ∀ a, q (f a) ↔ p a) (l : List α) :
    occurrences q (l.map f) = (occurrences p l).map fun x => (x.1.map f, f x.2) := by
  induction l using List.reverseRecOn with
  | nil => rfl
  | append_singleton l a ih =>
    rw [List.map_append, List.map_singleton, occurrences_concat, occurrences_concat, ih,
      List.map_append]
    by_cases ha : p a
    · rw [if_pos ha, if_pos ((h a).mpr ha)]
      rfl
    · rw [if_neg ha, if_neg (fun hq => ha ((h a).mp hq))]
      rfl

/-- Each occurrence has more of the log in front of it than those before it. -/
theorem occurrences_pairwise (p : α → Prop) [DecidablePred p] (l : List α) :
    (occurrences p l).Pairwise fun x y => x.1 <+: y.1 := by
  induction l using List.reverseRecOn with
  | nil => exact List.Pairwise.nil
  | append_singleton l a ih =>
    rw [occurrences_concat]
    split
    · rw [List.pairwise_append]
      refine ⟨ih, List.pairwise_singleton _ _, ?_⟩
      intro x hx y hy
      rw [List.mem_singleton.mp hy]
      obtain ⟨-, l', rfl⟩ := mem_occurrences.mp hx
      exact List.prefix_append _ _
    · rwa [List.append_nil]

/-! ### Sorting -/

/-- `l` is the result of putting `l₁` and `l₂` together, each in its order. -/
inductive Interleaving : List α → List α → List α → Prop
  | nil : Interleaving [] [] []
  | left {l₁ l₂ l : List α} (a : α) (h : Interleaving l₁ l₂ l) : Interleaving (a :: l₁) l₂ (a :: l)
  | right {l₁ l₂ l : List α} (a : α) (h : Interleaving l₁ l₂ l) : Interleaving l₁ (a :: l₂) (a :: l)

/-- The two lists may be changed element by element. -/
theorem Interleaving.map {β : Type v} {l₁ l₂ : List α} (h : Interleaving l₁ l₂ l) (f : α → β) :
    Interleaving (l₁.map f) (l₂.map f) (l.map f) := by
  induction h with
  | nil => exact .nil
  | left a _ ih => exact .left (f a) ih
  | right a _ ih => exact .right (f a) ih

/-- Every list is put together from the elements that meet a condition and the others. -/
theorem interleaving_filter (p : α → Prop) [DecidablePred p] (l : List α) :
    Interleaving (l.filter (p ·)) (l.filter (¬ p ·)) l := by
  induction l with
  | nil => exact .nil
  | cons a l ih =>
    by_cases ha : p a
    · rw [List.filter_cons_of_pos (by simpa using ha), List.filter_cons_of_neg (by simpa using ha)]
      exact ih.left a
    · rw [List.filter_cons_of_neg (by simpa using ha), List.filter_cons_of_pos (by simpa using ha)]
      exact ih.right a

/-- So is the part of it that meets another condition. -/
theorem interleaving_filter_and (q p : α → Prop) [DecidablePred q] [DecidablePred p] (l : List α) :
    Interleaving (l.filter fun a => q a ∧ p a) (l.filter fun a => q a ∧ ¬ p a)
      (l.filter (q ·)) := by
  have hpos : (l.filter fun a => q a ∧ p a) = (l.filter (q ·)).filter (p ·) := by
    rw [List.filter_filter]
    simp only [Bool.decide_and, Bool.and_comm]
  have hneg : (l.filter fun a => q a ∧ ¬ p a) = (l.filter (q ·)).filter (¬ p ·) := by
    rw [List.filter_filter]
    simp only [Bool.decide_and, Bool.and_comm]
  rw [hpos, hneg]
  exact interleaving_filter p _

/-- A condition that stays met once it is met cuts a list in two. -/
theorem filter_append_filter (h : l.Pairwise fun a b => p a → p b) :
    l.filter (¬ p ·) ++ l.filter (p ·) = l := by
  induction l with
  | nil => rfl
  | cons a l ih =>
    obtain ⟨hhead, htail⟩ := List.pairwise_cons.mp h
    by_cases ha : p a
    · -- the cut lies in front of the list
      have hall : ∀ b ∈ a :: l, p b := List.forall_mem_cons.mpr ⟨ha, fun b hb => hhead b hb ha⟩
      have hnone : (a :: l).filter (¬ p ·) = [] := List.filter_eq_nil_iff.mpr (by simpa using hall)
      have hsame : (a :: l).filter (p ·) = a :: l := List.filter_eq_self.mpr (by simpa using hall)
      rw [hnone, hsame, List.nil_append]
    · -- the cut comes later
      rw [List.filter_cons_of_pos (by simpa using ha), List.filter_cons_of_neg (by simpa using ha),
        List.cons_append, ih htail]

/-- So it does with the part that meets another condition. -/
theorem filter_and_append_filter_and (h : l.Pairwise fun a b => p a → p b) (q : α → Prop)
    [DecidablePred q] :
    (l.filter fun a => ¬ p a ∧ q a) ++ (l.filter fun a => p a ∧ q a) = l.filter (q ·) := by
  have hneg : (l.filter fun a => ¬ p a ∧ q a) = (l.filter (q ·)).filter (¬ p ·) := by
    rw [List.filter_filter]
    simp only [Bool.decide_and]
  have hpos : (l.filter fun a => p a ∧ q a) = (l.filter (q ·)).filter (p ·) := by
    rw [List.filter_filter]
    simp only [Bool.decide_and]
  rw [hneg, hpos]
  exact filter_append_filter (h.filter _)

/-- A condition that holds of as many elements as a weaker one holds of the same elements: none is
    left on which they could differ. -/
theorem of_length_filter_eq {q : α → Prop} [DecidablePred q] (hpq : ∀ a ∈ l, p a → q a)
    (hlen : (l.filter (p ·)).length = (l.filter (q ·)).length) : ∀ a ∈ l, q a → p a := by
  have hsame : l.filter (p ·) = (l.filter (q ·)).filter (p ·) := by
    rw [List.filter_filter]
    apply List.filter_congr
    intro a ha
    by_cases hp : p a
    · simp [hp, hpq a ha hp]
    · simp [hp]
  rw [hsame, List.length_filter_eq_length_iff] at hlen
  intro a ha hq
  exact of_decide_eq_true (hlen a (List.mem_filter.mpr ⟨ha, decide_eq_true hq⟩))

end LastEvents
