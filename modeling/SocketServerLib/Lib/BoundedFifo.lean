import Mathlib.Data.List.Basic

/-
  A queue with room for `cap` items.

  `enqueue` stores all it is given or nothing; `pop` removes as many of the oldest items as it
  is told, or none. `dequeue` takes what is there, up to a bound.
-/
structure BoundedFifo (α : Type*) (cap : Nat) where
  items : List α
  length_le : items.length ≤ cap

namespace BoundedFifo

variable {α : Type*} {cap : Nat}

def empty : BoundedFifo α cap := { items := [], length_le := Nat.zero_le cap }

/-- The queue without its `n` oldest items. -/
def drop (q : BoundedFifo α cap) (n : Nat) : BoundedFifo α cap :=
  { items := q.items.drop n
    length_le := Nat.le_trans (List.length_drop ▸ Nat.sub_le _ _) q.length_le }

def enqueue (q : BoundedFifo α cap) (xs : List α) : BoundedFifo α cap × Bool :=
  if h : q.items.length + xs.length ≤ cap then
    ({ items := q.items ++ xs, length_le := List.length_append ▸ h }, true)
  else (q, false)

def pop (q : BoundedFifo α cap) (n : Nat) : BoundedFifo α cap × Bool :=
  if n ≤ q.items.length then (q.drop n, true) else (q, false)

def dequeue (q : BoundedFifo α cap) (max : Nat) : BoundedFifo α cap × List α :=
  (q.drop max, q.items.take max)

variable {q : BoundedFifo α cap} {xs : List α} {n : Nat}

theorem enqueue_fits (h : q.items.length + xs.length ≤ cap) :
    (q.enqueue xs).1.items = q.items ++ xs ∧ (q.enqueue xs).2 = true := by
  rw [enqueue, dif_pos h]
  exact ⟨rfl, rfl⟩

theorem enqueue_full (h : ¬ q.items.length + xs.length ≤ cap) : q.enqueue xs = (q, false) :=
  dif_neg h

theorem pop_held (h : n ≤ q.items.length) : q.pop n = (q.drop n, true) := if_pos h

theorem pop_short (h : ¬ n ≤ q.items.length) : q.pop n = (q, false) := if_neg h

end BoundedFifo
