import Mathlib.Data.List.Basic
import NetworkExperiment.Lib.ActionSystem

namespace ActionSystems

/-!
# Dialogues of two parties

Two parties talk over two pipes that hold a limited number of items each way, and each call moves
any number of the items that it is asked for.  What a party sends next may depend on what it has
received.

* `Party` — a party: it sends an item, waits for one, or has come to an end with a result;
* `Dialogue` / `dialogue` — two parties and the pipes between them, and every way to move items;
* `Dual` — each party waits for what the other one sends, in the same order, up to their results;
* `Dual.completes` — the dialogue of dual parties ends, with these results, if the pipes hold one
  item each way.
-/

universe u v w

/-! ### Parties -/

/-- A party that sends and receives items of `α` and ends with a result of `ρ`.  It has no state
    but what it will still do. -/
inductive Party (α : Type u) (ρ : Type v)
  | done (result : ρ)
  | put (a : α) (next : Party α ρ)
  | get (next : α → Party α ρ)

namespace Party

variable {α : Type u} {ρ : Type v} {σ : Type w}

/-- Send the items, and go on. -/
def send (as : List α) (p : Party α ρ) : Party α ρ := as.foldr put p

/-- Receive that many items, and go on with them. -/
def receive : ℕ → (List α → Party α ρ) → Party α ρ
  | 0, k => k []
  | n + 1, k => .get fun a => receive n fun as => k (a :: as)

/-- The next items that the party sends, and the party behind them; `none` where it does not send
    as many. -/
def write : ℕ → Party α ρ → Option (List α × Party α ρ)
  | 0, p => some ([], p)
  | n + 1, .put a p => (p.write n).map fun out => (a :: out.1, out.2)
  | _ + 1, _ => none

/-- The party when it has received these items; `none` where it does not wait for as many. -/
def read : List α → Party α ρ → Option (Party α ρ)
  | [], p => some p
  | a :: as, .get k => (k a).read as
  | _ :: _, _ => none

@[simp] theorem send_nil (p : Party α ρ) : send [] p = p := rfl

@[simp] theorem send_cons (a : α) (as : List α) (p : Party α ρ) :
    send (a :: as) p = .put a (send as p) := rfl

/-- Two lists are sent one behind the other. -/
theorem send_append (as bs : List α) (p : Party α ρ) :
    send (as ++ bs) p = send as (send bs p) := List.foldr_append ..

/-- The party sends what it has to send. -/
theorem write_send (as bs : List α) (p : Party α ρ) :
    (send (as ++ bs) p).write as.length = some (as, send bs p) := by
  induction as with
  | nil => rfl
  | cons a as ih =>
    rw [List.cons_append, send_cons, List.length_cons, write, ih]
    rfl

/-- What a party sends was to be sent. -/
theorem write_eq_some {n : ℕ} {p q : Party α ρ} {as : List α} (h : p.write n = some (as, q)) :
    p = send as q ∧ as.length = n := by
  induction n generalizing p as with
  | zero =>
    obtain ⟨rfl, rfl⟩ := Prod.mk.inj (Option.some.inj h)
    exact ⟨rfl, rfl⟩
  | succ n ih =>
    cases p with
    | put a p =>
      obtain ⟨⟨bs, q'⟩, hbs, heq⟩ := Option.map_eq_some_iff.mp h
      obtain ⟨rfl, rfl⟩ := Prod.mk.inj heq
      obtain ⟨rfl, hlen⟩ := ih hbs
      exact ⟨rfl, congrArg (· + 1) hlen⟩
    | done r | get k => cases h

/-- A party that waits for items receives some of them, and then waits for the others: a call may
    be answered by a part of what it asks for. -/
theorem read_receive (as : List α) {n : ℕ} (k : List α → Party α ρ) (hle : as.length ≤ n) :
    (receive n k).read as = some (receive (n - as.length) fun bs => k (as ++ bs)) := by
  induction as generalizing n k with
  | nil => rfl
  | cons a as ih =>
    cases n with
    | zero => exact absurd hle (by simp)
    | succ n =>
      have hle' : as.length ≤ n := by simpa using hle
      rw [receive, read, ih _ hle', List.length_cons, Nat.add_sub_add_right]
      rfl

/-- A party that has something to send has not ended. -/
theorem send_ne_done {as : List α} {p : Party α ρ} {r : ρ} (has : as ≠ []) :
    send as p ≠ .done r := by
  obtain ⟨a, as, rfl⟩ := List.exists_cons_of_ne_nil has
  intro h
  cases h

/-- A party that waits for something has not ended. -/
theorem receive_ne_done {n : ℕ} {k : List α → Party α ρ} {r : ρ} (hn : 0 < n) :
    receive n k ≠ .done r := by
  obtain ⟨n, rfl⟩ := Nat.exists_eq_succ_of_ne_zero (Nat.ne_of_gt hn)
  intro h
  cases h

/-- A party that waits does not send. -/
theorem write_receive {m n : ℕ} (hm : 0 < m) (hn : 0 < n) (k : List α → Party α ρ) :
    (receive n k).write m = none := by
  obtain ⟨m, rfl⟩ := Nat.exists_eq_succ_of_ne_zero (Nat.ne_of_gt hm)
  obtain ⟨n, rfl⟩ := Nat.exists_eq_succ_of_ne_zero (Nat.ne_of_gt hn)
  rfl

/-! ### Dual parties -/

/-- Each party waits for what the other one sends: `n` items until they end with `r` and `s`.  Both
    follow one order, in which every item is sent by one and received by the other. -/
inductive Dual : ℕ → Party α ρ → Party α σ → ρ → σ → Prop
  | done (r : ρ) (s : σ) : Dual 0 (.done r) (.done s) r s
  | putGet {n : ℕ} {a : α} {p : Party α ρ} {k : α → Party α σ} {r : ρ} {s : σ}
      (h : Dual n p (k a) r s) : Dual (n + 1) (.put a p) (.get k) r s
  | getPut {n : ℕ} {a : α} {k : α → Party α ρ} {q : Party α σ} {r : ρ} {s : σ}
      (h : Dual n (k a) q r s) : Dual (n + 1) (.get k) (.put a q) r s

variable {n : ℕ} {p : Party α ρ} {q : Party α σ} {r : ρ} {s : σ}

/-- Duality has no direction. -/
theorem Dual.symm (h : Dual n p q r s) : Dual n q p s r := by
  induction h with
  | done r s => exact .done s r
  | putGet _ ih => exact .getPut ih
  | getPut _ ih => exact .putGet ih

/-- A party that sends is dual to one that waits for as much. -/
theorem Dual.sendReceive (as : List α) {k : List α → Party α σ} (h : Dual n p (k as) r s) :
    Dual (as.length + n) (send as p) (receive as.length k) r s := by
  induction as generalizing k with
  | nil =>
    rw [List.length_nil, Nat.zero_add]
    exact h
  | cons a as ih =>
    have hrest : Dual (as.length + n) (send as p) (receive as.length fun bs => k (a :: bs)) r s :=
      ih h
    rw [List.length_cons, Nat.add_right_comm]
    exact .putGet hrest

/-- When a part of what is sent has been received, the parties are dual again. -/
theorem Dual.read {as bs : List α} {q' : Party α σ} (h : Dual n (send (as ++ bs) p) q r s)
    (hread : q.read as = some q') : ∃ m, n = as.length + m ∧ Dual m (send bs p) q' r s := by
  induction as generalizing n q with
  | nil =>
    obtain rfl := Option.some.inj hread
    exact ⟨n, by simp, h⟩
  | cons a as ih =>
    -- the item that is received is the one that was sent first
    rw [List.cons_append, send_cons] at h
    cases h with
    | putGet h =>
      obtain ⟨m, rfl, hdual⟩ := ih h hread
      exact ⟨m, by rw [List.length_cons]; omega, hdual⟩

/-- What is sent is among the items to be received. -/
theorem Dual.length_le {as : List α} (h : Dual n (send as p) q r s) : as.length ≤ n := by
  induction as generalizing n q with
  | nil => exact Nat.zero_le _
  | cons a as ih =>
    cases h with
    | putGet h => exact Nat.succ_le_succ (ih h)

/-- A party that sends its last items ends with its result. -/
theorem Dual.result {as : List α} {r' : ρ} (h : Dual n (send as (.done r')) q r s) : r' = r := by
  induction as generalizing n q with
  | nil =>
    cases h
    rfl
  | cons a as ih =>
    cases h with
    | putGet h => exact ih h

/-- Dual parties do not both send: of two such parties at least one waits. -/
theorem Dual.not_both_send {as bs : List α} (has : as ≠ []) (hbs : bs ≠ []) :
    ¬ Dual n (send as p) (send bs q) r s := by
  obtain ⟨a, as, rfl⟩ := List.exists_cons_of_ne_nil has
  obtain ⟨b, bs, rfl⟩ := List.exists_cons_of_ne_nil hbs
  rw [send_cons, send_cons]
  intro h
  cases h

end Party

open Party

/-! ### The dialogue -/

/-- Two parties and the items between them. -/
structure Dialogue (α : Type u) (ρ : Type v) (σ : Type w) where
  left : Party α ρ
  right : Party α σ
  toRight : List α
  toLeft : List α

/-- How many items the pipes hold. -/
structure PipeRoom where
  toRight : ℕ
  toLeft : ℕ

/-- The party that moves items. -/
inductive End
  | left
  | right
deriving DecidableEq, Repr

namespace Dialogue

variable {α : Type u} {ρ : Type v} {σ : Type w}

/-- The dialogue seen from the other side. -/
def swap (d : Dialogue α ρ σ) : Dialogue α σ ρ := ⟨d.right, d.left, d.toLeft, d.toRight⟩

/-- Nothing has been said. -/
def start (p : Party α ρ) (q : Party α σ) : Dialogue α ρ σ := ⟨p, q, [], []⟩

/-- The left party sends `n` items, if it sends, or receives as many.  It waits where there is no
    room for them, or fewer are under way. -/
def move (room n : ℕ) (d : Dialogue α ρ σ) : Option (Dialogue α ρ σ) :=
  if n = 0 then none
  else
    match d.left.write n with
    | some (as, p) =>
        if d.toRight.length + n ≤ room then some { d with left := p, toRight := d.toRight ++ as }
        else none
    | none =>
        if n ≤ d.toLeft.length then
          (d.left.read (d.toLeft.take n)).map fun p =>
            { d with left := p, toLeft := d.toLeft.drop n }
        else none

end Dialogue

/-- Every way to move the items of a dialogue: an action names the party and the number of
    items. -/
def dialogue (α : Type u) (ρ : Type v) (σ : Type w) (room : PipeRoom) :
    ActionSystem (Dialogue α ρ σ) (End × ℕ) where
  act d
    | (.left, n) => d.move room.toRight n
    | (.right, n) => (d.swap.move room.toLeft n).map Dialogue.swap

namespace Dialogue

variable {α : Type u} {ρ : Type v} {σ : Type w} {room : PipeRoom} {d d' : Dialogue α ρ σ}
  {limit m n : ℕ} {r : ρ} {s : σ}

/-- What a move does: it sends, or it receives. -/
theorem move_cases (h : d.move limit m = some d') :
    0 < m ∧
      ((∃ as p, d.left = send as p ∧ as.length = m ∧ d.toRight.length + m ≤ limit ∧
          d' = { d with left := p, toRight := d.toRight ++ as }) ∨
        ∃ p, m ≤ d.toLeft.length ∧ d.left.read (d.toLeft.take m) = some p ∧
          d' = { d with left := p, toLeft := d.toLeft.drop m }) := by
  unfold move at h
  by_cases hm : m = 0
  · rw [if_pos hm] at h
    cases h
  rw [if_neg hm] at h
  refine ⟨Nat.pos_of_ne_zero hm, ?_⟩
  split at h
  case h_1 as p hwrite =>
    split_ifs at h with hroom
    obtain rfl := Option.some.inj h
    obtain ⟨hleft, hlen⟩ := write_eq_some hwrite
    exact .inl ⟨as, p, hleft, hlen, hroom, rfl⟩
  case h_2 =>
    split_ifs at h with hle
    obtain ⟨p, hread, rfl⟩ := Option.map_eq_some_iff.mp h
    exact .inr ⟨p, hle, hread, rfl⟩

/-! ### Parties that send and receive lists -/

/-- A party that sends a list can send a part of it, where there is room. -/
theorem move_send {as bs : List α} {p : Party α ρ} (hleft : d.left = send (as ++ bs) p)
    (has : 0 < as.length) (hroom : d.toRight.length + as.length ≤ limit) :
    d.move limit as.length = some { d with left := send bs p, toRight := d.toRight ++ as } := by
  unfold move
  rw [if_neg (Nat.ne_of_gt has), hleft, write_send]
  dsimp only
  rw [if_pos hroom]

/-- A party that receives a list can receive a part of it that is under way. -/
theorem move_receive {k : List α → Party α ρ} (hleft : d.left = receive n k) (hm : 0 < m)
    (hle : m ≤ n) (hpipe : m ≤ d.toLeft.length) :
    d.move limit m = some { d with
      left := receive (n - m) fun bs => k (d.toLeft.take m ++ bs), toLeft := d.toLeft.drop m } := by
  have hlen : (d.toLeft.take m).length = m := by
    rw [List.length_take]
    omega
  have hread := read_receive (d.toLeft.take m) k (Nat.le_trans (Nat.le_of_eq hlen) hle)
  rw [hlen] at hread
  unfold move
  rw [if_neg (Nat.ne_of_gt hm), hleft, write_receive hm (Nat.lt_of_lt_of_le hm hle)]
  dsimp only
  rw [if_pos hpipe, hread]
  rfl

/-- Where the pipe is full, a party that sends cannot move. -/
theorem move_send_full {as : List α} {p : Party α ρ} (hleft : d.left = send as p) (has : as ≠ [])
    (hroom : limit ≤ d.toRight.length) : d.move limit 1 = none := by
  obtain ⟨a, as, rfl⟩ := List.exists_cons_of_ne_nil has
  have hwrite : d.left.write 1 = some ([a], send as p) := by
    rw [hleft]
    rfl
  unfold move
  rw [if_neg Nat.one_ne_zero, hwrite]
  dsimp only
  rw [if_neg (by omega)]

/-- Where nothing is under way, a party that receives cannot move. -/
theorem move_receive_nil {k : List α → Party α ρ} (hleft : d.left = receive n k) (hn : 0 < n)
    (hpipe : d.toLeft = []) : d.move limit 1 = none := by
  unfold move
  rw [if_neg Nat.one_ne_zero, hleft, write_receive Nat.one_pos hn, hpipe]
  dsimp only
  rw [if_neg (by simp)]

/-- A party that has ended does not move. -/
theorem move_done {r' : ρ} (hleft : d.left = .done r') : d.move limit 1 = none := by
  -- a party that has ended waits for nothing and sends nothing
  have hread : ∀ as : List α, as ≠ [] → (Party.done (α := α) r').read as = none := by
    intro as has
    obtain ⟨a, as, rfl⟩ := List.exists_cons_of_ne_nil has
    rfl
  have hwrite : (Party.done (α := α) r').write 1 = none := rfl
  unfold move
  rw [if_neg Nat.one_ne_zero, hleft, hwrite]
  dsimp only
  split_ifs with hle
  · rw [hread _ (by rw [← List.length_pos_iff_ne_nil, List.length_take]; omega)]
    rfl
  · rfl

/-! ### The invariant -/

/-- The parties are dual, with what is under way put back; `n` items are still to be received.
    Items are under way in one direction at most. -/
def Inv (n : ℕ) (r : ρ) (s : σ) (d : Dialogue α ρ σ) : Prop :=
  (d.toLeft = [] ∧ Dual n (send d.toRight d.left) d.right r s) ∨
    (d.toRight = [] ∧ Dual n d.left (send d.toLeft d.right) r s)

theorem inv_start {p : Party α ρ} {q : Party α σ} (h : Dual n p q r s) :
    (start p q).Inv n r s := .inl ⟨rfl, h⟩

/-- It holds from both sides. -/
theorem Inv.swap (h : d.Inv n r s) : d.swap.Inv n s r := by
  rcases h with ⟨hpipe, h⟩ | ⟨hpipe, h⟩
  · exact .inr ⟨hpipe, h.symm⟩
  · exact .inl ⟨hpipe, h.symm⟩

/-- How many items are under way. -/
def underWay (d : Dialogue α ρ σ) : ℕ := d.toRight.length + d.toLeft.length

/-- A move of the left party keeps the invariant, and leaves less to be done: an item counts twice
    while it is to be received, and once less when it is under way. -/
theorem Inv.move (h : d.Inv n r s) (hmove : d.move limit m = some d') :
    ∃ n', d'.Inv n' r s ∧ 2 * n' + d.underWay + 1 ≤ 2 * n + d'.underWay := by
  obtain ⟨hm, ⟨as, p, hleft, hlen, -, rfl⟩ | ⟨p, hle, hread, rfl⟩⟩ := move_cases hmove
  · -- what is sent is put behind what is under way
    have hsend : d.toLeft = [] ∧ Dual n (send d.toRight (send as p)) d.right r s := by
      rcases h with ⟨hpipe, h⟩ | ⟨hpipe, h⟩
      · exact ⟨hpipe, hleft ▸ h⟩
      · rw [hleft] at h
        have hnone : d.toLeft = [] := by
          -- what is under way to the left was sent by the right party, and both would send
          by_contra hsome
          exact Dual.not_both_send (List.ne_nil_of_length_pos (hlen ▸ hm)) hsome h
        rw [hnone, send_nil] at h
        rw [hpipe, send_nil]
        exact ⟨hnone, h⟩
    rw [← send_append] at hsend
    refine ⟨n, .inl hsend, ?_⟩
    unfold underWay
    dsimp only
    rw [List.length_append]
    omega
  · -- what is received was under way
    rcases h with ⟨hpipe, -⟩ | ⟨hpipe, h⟩
    · rw [hpipe, List.length_nil] at hle
      omega
    · have hsplit := h.symm
      rw [← List.take_append_drop m d.toLeft] at hsplit
      obtain ⟨n', hn, hdual⟩ := hsplit.read hread
      rw [List.length_take] at hn
      refine ⟨n', .inr ⟨hpipe, hdual.symm⟩, ?_⟩
      unfold underWay
      dsimp only
      rw [List.length_drop]
      omega

/-- **Step lemma.**  The right party moves like the left one of the swapped dialogue. -/
theorem Inv.step {a : End × ℕ} (h : d.Inv n r s)
    (hact : (dialogue α ρ σ room).act d a = some d') :
    ∃ n', d'.Inv n' r s ∧ 2 * n' + d.underWay + 1 ≤ 2 * n + d'.underWay := by
  obtain ⟨side, m⟩ := a
  cases side with
  | left => exact h.move hact
  | right =>
    obtain ⟨e, hmove, rfl⟩ := Option.map_eq_some_iff.mp hact
    obtain ⟨n', hinv, hless⟩ := h.swap.move hmove
    refine ⟨n', hinv.swap, ?_⟩
    unfold underWay Dialogue.swap at *
    dsimp only at *
    omega

/-- **Run lemma.**  Every item makes two moves at most. -/
theorem Inv.run {as : List (End × ℕ)} (h : d.Inv n r s)
    (hrun : (dialogue α ρ σ room).run as d = some d') :
    ∃ n', d'.Inv n' r s ∧ 2 * n' + d.underWay + as.length ≤ 2 * n + d'.underWay := by
  induction as generalizing d n with
  | nil =>
    obtain rfl := Option.some.inj hrun
    exact ⟨n, h, Nat.le_refl _⟩
  | cons a as ih =>
    rw [ActionSystem.run_cons, Option.bind_eq_some_iff] at hrun
    obtain ⟨e, hact, hrest⟩ := hrun
    obtain ⟨n₁, h₁, hless₁⟩ := h.step hact
    obtain ⟨n₂, h₂, hless₂⟩ := ih h₁ hrest
    refine ⟨n₂, h₂, ?_⟩
    rw [List.length_cons]
    omega

/-- No more is under way than is to be received. -/
theorem Inv.underWay_le (h : d.Inv n r s) : d.underWay ≤ n := by
  unfold underWay
  rcases h with ⟨hpipe, h⟩ | ⟨hpipe, h⟩
  · rw [hpipe, List.length_nil, Nat.add_zero]
    exact h.length_le
  · rw [hpipe, List.length_nil, Nat.zero_add]
    exact h.symm.length_le

/-! ### The end -/

/-- A party that sends can move if there is room for one item. -/
theorem move_put {a : α} {p : Party α ρ} (hleft : d.left = .put a p)
    (hroom : d.toRight.length < limit) : d.move limit 1 ≠ none := by
  have hwrite : d.left.write 1 = some ([a], p) := by
    rw [hleft]
    rfl
  unfold move
  rw [if_neg Nat.one_ne_zero, hwrite]
  dsimp only
  rw [if_pos (by omega)]
  simp

/-- A party that waits can move if there is an item for it. -/
theorem move_get {k : α → Party α ρ} (hleft : d.left = .get k) (hpipe : d.toLeft ≠ []) :
    d.move limit 1 ≠ none := by
  obtain ⟨a, as, hcons⟩ := List.exists_cons_of_ne_nil hpipe
  have hwrite : d.left.write 1 = none := by
    rw [hleft]
    rfl
  have hread : d.left.read (d.toLeft.take 1) = some (k a) := by
    rw [hleft, hcons]
    rfl
  unfold move
  rw [if_neg Nat.one_ne_zero, hwrite]
  dsimp only
  rw [if_pos (by rw [hcons, List.length_cons]; omega), hread]
  simp

/-- Where neither party can move and nothing is under way to the left, both have ended.  The cases
    are what the parties do next; dual parties leave few of them. -/
theorem ended_of_stuck {limit' : ℕ} (hroom : 0 < limit) (hroom' : 0 < limit')
    (hleft : d.move limit 1 = none) (hright : d.swap.move limit' 1 = none)
    (hpipe : d.toLeft = []) (h : Dual n (send d.toRight d.left) d.right r s) :
    d.left = .done r ∧ d.right = .done s ∧ d.toRight = [] := by
  cases htoRight : d.toRight with
  | cons a as =>
    -- the right party waits for what is under way
    rw [htoRight, send_cons] at h
    cases hq : d.right with
    | get k => exact absurd hright (move_get hq (by rw [swap, htoRight]; simp))
    | done s | put a q =>
      rw [hq] at h
      cases h
  | nil =>
    rw [htoRight, send_nil] at h
    cases hp : d.left with
    | put a p => exact absurd hleft (move_put hp (by rw [htoRight]; exact hroom))
    | done r' =>
      rw [hp] at h
      cases hq : d.right with
      | done s' =>
        rw [hq] at h
        cases h
        exact ⟨rfl, rfl, rfl⟩
      | put a q | get k =>
        rw [hq] at h
        cases h
    | get k =>
      -- the left party waits, so the right one sends, and has room
      rw [hp] at h
      cases hq : d.right with
      | put a q =>
        exact absurd hright (move_put hq (by rw [swap, hpipe]; exact hroom'))
      | done s' | get k' =>
        rw [hq] at h
        cases h

/-- Where neither party can move an item, both have ended. -/
theorem Inv.ended (h : d.Inv n r s) (htoRight : 0 < room.toRight) (htoLeft : 0 < room.toLeft)
    (hleft : d.move room.toRight 1 = none) (hright : d.swap.move room.toLeft 1 = none) :
    d.left = .done r ∧ d.right = .done s ∧ d.toRight = [] ∧ d.toLeft = [] := by
  rcases h with ⟨hpipe, h⟩ | ⟨hpipe, h⟩
  · obtain ⟨hp, hq, hnone⟩ := ended_of_stuck htoRight htoLeft hleft hright hpipe h
    exact ⟨hp, hq, hnone, hpipe⟩
  · obtain ⟨hq, hp, hnone⟩ := @ended_of_stuck _ _ _ d.swap _ _ _ _ _ htoLeft htoRight hright hleft
      hpipe h.symm
    exact ⟨hp, hq, hpipe, hnone⟩

/-- A party that has ended has ended as it should. -/
theorem Inv.left_result (h : d.Inv n r s) {r' : ρ} (hdone : d.left = .done r') : r' = r := by
  rcases h with ⟨-, h⟩ | ⟨-, h⟩
  · rw [hdone] at h
    exact h.result
  · rw [hdone] at h
    exact @Dual.result _ _ _ _ _ _ _ [] _ h

theorem Inv.right_result (h : d.Inv n r s) {s' : σ} (hdone : d.right = .done s') : s' = s :=
  h.swap.left_result hdone

end Dialogue

open Dialogue

/-! ### Every run -/

/-- **Dual parties.**  A dialogue of dual parties makes no more than two moves for each item; a
    party that ends has its result; and if each pipe holds an item, some item can be moved until
    both have ended and nothing is under way. -/
theorem Party.Dual.completes {α : Type u} {ρ : Type v} {σ : Type w} {room : PipeRoom} {n : ℕ}
    {p : Party α ρ} {q : Party α σ} {r : ρ} {s : σ} (h : Dual n p q r s) {as : List (End × ℕ)}
    {d : Dialogue α ρ σ} (hrun : (dialogue α ρ σ room).run as (start p q) = some d) :
    as.length ≤ 2 * n ∧ (∃ m, d.Inv m r s) ∧
      (0 < room.toRight → 0 < room.toLeft →
        d.move room.toRight 1 = none → d.swap.move room.toLeft 1 = none →
        d.left = .done r ∧ d.right = .done s ∧ d.toRight = [] ∧ d.toLeft = []) := by
  obtain ⟨m, hinv, hlen⟩ := (inv_start h).run hrun
  refine ⟨?_, ⟨m, hinv⟩, hinv.ended⟩
  have hle := hinv.underWay_le
  have hnone : (start p q).underWay = 0 := rfl
  omega

end ActionSystems
