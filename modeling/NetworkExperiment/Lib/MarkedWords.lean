import Mathlib.Data.List.Basic

namespace MarkedWords

/-!
# Words that begin with a mark

Words whose first letter tells them and occurs nowhere else.  In a stream of such words, some of
them cut short, a whole word is found only where one has been written in full.

* `Marked` — the first letter of a word occurs in no word but this one, and only in front;
* `stream` — the letters of words that have been cut;
* `Marked.found` — a word that is found in the stream has been written there in full.
-/

variable {ι α : Type*} {word : ι → List α}

/-- The first letter of a word occurs only there. -/
structure Marked (word : ι → List α) : Prop where
  ne_nil : ∀ i, word i ≠ []
  mark : ∀ {i j k a}, (word i)[0]? = some a → (word j)[k]? = some a → k = 0 ∧ j = i

/-- The letters that are written, where of each word only so many letters are. -/
def stream (word : ι → List α) (ws : List (ι × ℕ)) : List α :=
  ws.flatMap fun w => (word w.1).take w.2

@[simp] theorem stream_nil : stream word [] = [] := rfl

@[simp] theorem stream_cons (w : ι × ℕ) (ws : List (ι × ℕ)) :
    stream word (w :: ws) = (word w.1).take w.2 ++ stream word ws := rfl

@[simp] theorem stream_append (ws vs : List (ι × ℕ)) :
    stream word (ws ++ vs) = stream word ws ++ stream word vs := List.flatMap_append

/-- A stream begins with the mark of a word. -/
theorem exists_mark {ws : List (ι × ℕ)} {a : α} {s : List α} (h : stream word ws = a :: s) :
    ∃ i, (word i)[0]? = some a := by
  induction ws with
  | nil => cases h
  | cons w ws ih =>
    rw [stream_cons] at h
    cases htake : (word w.1).take w.2 with
    | nil =>
      -- nothing is written of the word
      rw [htake] at h
      exact ih h
    | cons b t =>
      rw [htake] at h
      obtain ⟨rfl, -⟩ := List.cons.inj h
      have hget : ((word w.1).take w.2)[0]? = some b := by rw [htake]; rfl
      refine ⟨w.1, ?_⟩
      rw [List.getElem?_take] at hget
      split_ifs at hget
      exact hget

/-- A word that is found at the front of a stream has been written in full. -/
theorem Marked.found_front (h : Marked word) {i : ι} {n : ℕ} {ws : List (ι × ℕ)} {s : List α}
    (hn : 0 < n) (hs : (word i).take n ++ stream word ws = word i ++ s) : (word i).length ≤ n := by
  by_contra hlt
  rw [Nat.not_le] at hlt
  have hrest : stream word ws = (word i).drop n ++ s := by
    have hsplit : (word i).take n ++ ((word i).drop n ++ s) = word i ++ s := by
      rw [← List.append_assoc, List.take_append_drop]
    exact List.append_cancel_left (hs.trans hsplit.symm)
  -- the letter behind the cut would be the mark of a word
  rw [List.drop_eq_getElem_cons hlt, List.cons_append] at hrest
  obtain ⟨j, hj⟩ := exists_mark hrest
  have hzero := (h.mark hj (List.getElem?_eq_getElem hlt)).1
  omega

/-- **Found words.**  Where a word is found in a stream, it has been written in full. -/
theorem Marked.found (h : Marked word) {i : ι} {ws : List (ι × ℕ)} {pre post : List α}
    (hs : stream word ws = pre ++ (word i ++ post)) :
    ∃ ws₁ n ws₂, ws = ws₁ ++ (i, n) :: ws₂ ∧ stream word ws₁ = pre ∧ (word i).length ≤ n := by
  induction ws generalizing pre with
  | nil =>
    have hnil := congrArg List.length hs
    have hpos := List.length_pos_of_ne_nil (h.ne_nil i)
    rw [stream_nil, List.length_nil, List.length_append, List.length_append] at hnil
    omega
  | cons w ws ih =>
    obtain ⟨j, n⟩ := w
    rw [stream_cons] at hs
    rcases List.append_eq_append_iff.mp hs with ⟨mid, hpre, hrest⟩ | ⟨mid, hcut, hword⟩
    · -- the word lies behind this one
      obtain ⟨ws₁, n', ws₂, rfl, hstream, hfull⟩ := ih hrest
      refine ⟨(j, n) :: ws₁, n', ws₂, rfl, ?_, hfull⟩
      rw [stream_cons, hstream, hpre]
    · cases mid with
      | nil =>
        rw [List.append_nil] at hcut
        have hfront : stream word ws = [] ++ (word i ++ post) := hword.symm
        obtain ⟨ws₁, n', ws₂, rfl, hstream, hfull⟩ := ih hfront
        refine ⟨(j, n) :: ws₁, n', ws₂, rfl, ?_, hfull⟩
        rw [stream_cons, hstream, hcut, List.append_nil]
      | cons a mid =>
        -- it begins in this one, and so is this one
        obtain ⟨b, t, hwi⟩ := List.exists_cons_of_ne_nil (h.ne_nil i)
        have hab : b = a := by
          rw [hwi, List.cons_append, List.cons_append] at hword
          exact (List.cons.inj hword).1
        subst hab
        have hmark : (word i)[0]? = some b := by rw [hwi]; rfl
        have hat : (word j)[pre.length]? = some b := by
          have hget : ((word j).take n)[pre.length]? = some b := by rw [hcut]; simp
          rw [List.getElem?_take] at hget
          split_ifs at hget
          exact hget
        obtain ⟨hzero, rfl⟩ := h.mark hmark hat
        obtain rfl := List.eq_nil_of_length_eq_zero hzero
        have hn : 0 < n := by
          apply Nat.pos_of_ne_zero
          rintro rfl
          rw [List.take_zero] at hcut
          cases hcut
        exact ⟨[], n, ws, rfl, rfl, h.found_front hn (hs.trans (List.nil_append _))⟩

end MarkedWords
