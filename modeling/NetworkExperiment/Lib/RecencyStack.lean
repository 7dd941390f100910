import Mathlib.Data.List.Basic

namespace RecencyStacks

/-!
# A stack that is popped until there is room

* `popUntil` — what is left of a stack that is popped until a test succeeds;
* `popped` — what has been popped, in this order;
* `suffix_popUntil` — no more is popped than necessary.
-/

variable {α β : Type*} {fits : List α → Prop} [DecidablePred fits] {as bs : List α}

/-- The stack is popped until `fits` holds of it, or nothing is left. -/
def popUntil (fits : List α → Prop) [DecidablePred fits] : List α → List α
  | [] => []
  | a :: as => if fits (a :: as) then a :: as else popUntil fits as

/-- What is popped. -/
def popped (fits : List α → Prop) [DecidablePred fits] : List α → List α
  | [] => []
  | a :: as => if fits (a :: as) then [] else a :: popped fits as

theorem popUntil_of_fits (h : fits as) : popUntil fits as = as := by
  cases as with
  | nil => rfl
  | cons a as => rw [popUntil, if_pos h]

theorem popped_of_fits (h : fits as) : popped fits as = [] := by
  cases as with
  | nil => rfl
  | cons a as => rw [popped, if_pos h]

theorem popUntil_of_not_fits {a : α} (h : ¬ fits (a :: as)) :
    popUntil fits (a :: as) = popUntil fits as := by
  rw [popUntil, if_neg h]

theorem popped_of_not_fits {a : α} (h : ¬ fits (a :: as)) :
    popped fits (a :: as) = a :: popped fits as := by
  rw [popped, if_neg h]

/-- What is left and what is popped make up the stack. -/
theorem popped_append_popUntil (as : List α) : popped fits as ++ popUntil fits as = as := by
  induction as with
  | nil => rfl
  | cons a as ih =>
    by_cases h : fits (a :: as)
    · rw [popped_of_fits h, popUntil_of_fits h, List.nil_append]
    · rw [popped_of_not_fits h, popUntil_of_not_fits h, List.cons_append, ih]

theorem popUntil_suffix (as : List α) : popUntil fits as <:+ as :=
  ⟨popped fits as, popped_append_popUntil as⟩

/-- Where an empty stack passes the test, so does what is left. -/
theorem fits_popUntil (hnil : fits []) (as : List α) : fits (popUntil fits as) := by
  induction as with
  | nil => exact hnil
  | cons a as ih =>
    by_cases h : fits (a :: as)
    · rwa [popUntil_of_fits h]
    · rwa [popUntil_of_not_fits h]

/-- **No more than necessary.**  Any lower part of the stack that passes the test is left. -/
theorem suffix_popUntil (hbs : bs <:+ as) (hfits : fits bs) : bs <:+ popUntil fits as := by
  induction as with
  | nil => exact hbs
  | cons a as ih =>
    by_cases h : fits (a :: as)
    · rwa [popUntil_of_fits h]
    · rw [popUntil_of_not_fits h]
      rcases List.suffix_cons_iff.mp hbs with rfl | hbs
      · exact absurd hfits h
      · exact ih hbs

/-- An image of the stack is popped as the stack is, where the tests agree. -/
theorem popUntil_map {fits' : List β → Prop} [DecidablePred fits'] {f : α → β}
    (h : ∀ as, fits' (as.map f) ↔ fits as) (as : List α) :
    popUntil fits' (as.map f) = (popUntil fits as).map f := by
  induction as with
  | nil => rfl
  | cons a as ih =>
    by_cases hfits : fits (a :: as)
    · rw [popUntil_of_fits hfits, popUntil_of_fits ((h _).mpr hfits)]
    · have hfits' : ¬ fits' (f a :: as.map f) := mt (h (a :: as)).mp hfits
      rw [popUntil_of_not_fits hfits, List.map_cons, popUntil_of_not_fits hfits', ih]

theorem popped_map {fits' : List β → Prop} [DecidablePred fits'] {f : α → β}
    (h : ∀ as, fits' (as.map f) ↔ fits as) (as : List α) :
    popped fits' (as.map f) = (popped fits as).map f := by
  induction as with
  | nil => rfl
  | cons a as ih =>
    by_cases hfits : fits (a :: as)
    · rw [popped_of_fits hfits, popped_of_fits ((h _).mpr hfits), List.map_nil]
    · have hfits' : ¬ fits' (f a :: as.map f) := mt (h (a :: as)).mp hfits
      rw [popped_of_not_fits hfits, List.map_cons, popped_of_not_fits hfits', ih, List.map_cons]

end RecencyStacks
