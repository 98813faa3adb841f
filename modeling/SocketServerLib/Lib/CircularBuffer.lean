import Mathlib.Data.List.Basic

/-
  A circular buffer over an array of optional cells, with a read and a write
  position, one cell kept free to tell full from empty.

  `Holds slots r w q` says that the array holds the queue `q`: its entries lie
  at `r, r+1, ..` modulo the size of the array, every other cell is empty, and
  `w` is the position behind the last. The rules say what the usual operations
  on array and positions do to the queue:

    `Holds.push`      write at `w`, advance `w`       appends
    `Holds.pop`       clear `r`, advance `r`          removes the head
    `Holds.set_head`  overwrite the cell at `r`       replaces the head
    `Holds.empty_iff`, `Holds.full_iff`               the two position tests
    `Holds.walk_eq`   the walk from `r` to `w`        visits the queue in order
-/
namespace CircularBuffer

variable {α : Type*} {slots : List (Option α)} {r w : Nat} {q : List α} {a b : α}

/-- The array position of the `i`-th entry. -/
def pos (n r i : Nat) : Nat := (r + i) % n

theorem pos_eq {n r i : Nat} (hr : r < n) (hi : i < n) :
    pos n r i = if r + i < n then r + i else r + i - n := by
  unfold pos
  split
  · next h => exact Nat.mod_eq_of_lt h
  · next h => rw [Nat.mod_eq_sub_mod (by omega), Nat.mod_eq_of_lt (by omega)]

theorem pos_lt {n r i : Nat} (hn : 0 < n) : pos n r i < n := Nat.mod_lt _ hn

theorem pos_zero {n r : Nat} (hr : r < n) : pos n r 0 = r := Nat.mod_eq_of_lt hr

theorem pos_inj {n r i j : Nat} (hr : r < n) (hi : i < n) (hj : j < n)
    (h : pos n r i = pos n r j) : i = j := by
  rw [pos_eq hr hi, pos_eq hr hj] at h
  split at h <;> split at h <;> omega

/-- Advancing the read position moves every entry one place down. -/
theorem pos_succ (n r i : Nat) : pos n ((r + 1) % n) i = pos n r (i + 1) := by
  unfold pos
  rw [Nat.mod_add_mod]
  congr 1
  omega

/-- Advancing the position of an entry gives that of the next one. -/
theorem succ_pos_mod (n r i : Nat) : (pos n r i + 1) % n = pos n r (i + 1) := by
  unfold pos
  rw [Nat.mod_add_mod, Nat.add_assoc]

/-- The array holds the queue `q` between the read and the write position. -/
structure Holds (slots : List (Option α)) (r w : Nat) (q : List α) : Prop where
  read_lt : r < slots.length
  length_lt : q.length < slots.length
  write_eq : w = pos slots.length r q.length
  entry : ∀ i (h : i < q.length), slots[pos slots.length r i]? = some (some q[i])
  vacant : ∀ i, q.length ≤ i → i < slots.length → slots[pos slots.length r i]? = some none

namespace Holds

theorem nil_replicate {n : Nat} (hn : 0 < n) :
    Holds (List.replicate n (none : Option α)) 0 0 [] where
  read_lt := by simpa using hn
  length_lt := by simpa using hn
  write_eq := by simp [pos]
  entry i h := by simp at h
  vacant i _ hi := by
    have : pos n 0 i < n := pos_lt hn
    simp [this]

theorem write_lt (h : Holds slots r w q) : w < slots.length := by
  rw [h.write_eq]; exact pos_lt (by have := h.read_lt; omega)

theorem head (h : Holds slots r w (a :: q)) : slots[r]? = some (some a) := by
  have := h.entry 0 (by simp)
  rwa [pos_zero h.read_lt] at this

theorem head_nil (h : Holds slots r w []) : slots[r]? = some none := by
  have := h.vacant 0 (by simp) (by have := h.read_lt; omega)
  rwa [pos_zero h.read_lt] at this

theorem empty_iff (h : Holds slots r w q) : r = w ↔ q = [] := by
  constructor
  · intro hrw
    have h0 : pos slots.length r 0 = pos slots.length r q.length := by
      rw [pos_zero h.read_lt, ← h.write_eq]; exact hrw
    have := pos_inj h.read_lt (by have := h.read_lt; omega) h.length_lt h0
    exact List.eq_nil_of_length_eq_zero this.symm
  · intro he
    subst he
    rw [h.write_eq, List.length_nil, pos_zero h.read_lt]

theorem full_iff (h : Holds slots r w q) :
    (w + 1) % slots.length = r ↔ q.length + 1 = slots.length := by
  have hr := h.read_lt
  have hl := h.length_lt
  rw [h.write_eq, succ_pos_mod]
  constructor
  · intro he
    -- with a cell to spare, the cell behind the last entry is not the head's
    by_contra hne
    have h0 : pos slots.length r (q.length + 1) = pos slots.length r 0 := by
      rw [pos_zero hr]; exact he
    have := pos_inj hr (by omega) (by omega) h0
    omega
  · intro he
    rw [he]
    simp only [pos, Nat.add_mod_right]
    exact Nat.mod_eq_of_lt hr

theorem push (h : Holds slots r w q) (hroom : q.length + 1 < slots.length) (a : α) :
    Holds (slots.set w (some a)) r ((w + 1) % slots.length) (q ++ [a]) where
  read_lt := by rw [List.length_set]; exact h.read_lt
  length_lt := by simpa using hroom
  write_eq := by
    rw [List.length_set, List.length_append, h.write_eq, succ_pos_mod]; rfl
  entry i hi := by
    have hw := h.write_lt
    rw [List.length_set]
    rw [List.length_append, List.length_singleton] at hi
    by_cases hlast : i = q.length
    · subst hlast
      rw [← h.write_eq, List.getElem?_set_self hw]
      simp
    · have hne : w ≠ pos slots.length r i := by
        rw [h.write_eq]
        intro he
        exact hlast (pos_inj h.read_lt h.length_lt (by omega) he).symm
      rw [List.getElem?_set_ne hne, h.entry i (by omega), List.getElem_append_left]
  vacant i hi hin := by
    rw [List.length_append, List.length_singleton] at hi
    rw [List.length_set] at hin ⊢
    have hne : w ≠ pos slots.length r i := by
      rw [h.write_eq]
      intro he
      have := pos_inj h.read_lt h.length_lt hin he
      omega
    rw [List.getElem?_set_ne hne]
    exact h.vacant i (by omega) hin

theorem pop (h : Holds slots r w (a :: q)) :
    Holds (slots.set r none) ((r + 1) % slots.length) w q where
  read_lt := by
    rw [List.length_set]
    exact Nat.mod_lt _ (by have := h.read_lt; omega)
  length_lt := by
    have := h.length_lt
    rw [List.length_cons] at this
    rw [List.length_set]; omega
  write_eq := by rw [List.length_set, pos_succ, h.write_eq, List.length_cons]
  entry i hi := by
    have hl := h.length_lt
    rw [List.length_cons] at hl
    rw [List.length_set, pos_succ]
    have hne : r ≠ pos slots.length r (i + 1) := by
      intro he
      have := pos_inj h.read_lt (by omega) (by omega) ((pos_zero h.read_lt).trans he)
      omega
    rw [List.getElem?_set_ne hne, h.entry (i + 1) (by simpa using hi)]
    simp
  vacant i hi hin := by
    rw [List.length_set] at hin
    rw [List.length_set, pos_succ]
    by_cases hlast : i + 1 = slots.length
    · -- the cell just cleared is the one furthest behind the new read position
      have : pos slots.length r (i + 1) = r := by
        rw [hlast]; simp only [pos, Nat.add_mod_right]; exact Nat.mod_eq_of_lt h.read_lt
      rw [this, List.getElem?_set_self h.read_lt]
    · have hne : r ≠ pos slots.length r (i + 1) := by
        intro he
        have := pos_inj h.read_lt (by omega) (by omega) ((pos_zero h.read_lt).trans he)
        omega
      rw [List.getElem?_set_ne hne]
      exact h.vacant (i + 1) (by simpa using hi) (by omega)

theorem set_head (h : Holds slots r w (a :: q)) (b : α) :
    Holds (slots.set r (some b)) r w (b :: q) where
  read_lt := by rw [List.length_set]; exact h.read_lt
  length_lt := by rw [List.length_set]; exact h.length_lt
  write_eq := by rw [List.length_set, h.write_eq]; rfl
  entry i hi := by
    have hl := h.length_lt
    simp only [List.length_cons] at hi hl
    rw [List.length_set]
    cases i with
    | zero => rw [pos_zero h.read_lt, List.getElem?_set_self h.read_lt]; rfl
    | succ i =>
      have hne : r ≠ pos slots.length r (i + 1) := by
        intro he
        have := pos_inj h.read_lt (by omega) (by omega) ((pos_zero h.read_lt).trans he)
        omega
      rw [List.getElem?_set_ne hne, h.entry (i + 1) (by simpa using hi)]
      rfl
  vacant i hi hin := by
    rw [List.length_cons] at hi
    rw [List.length_set] at hin ⊢
    have hne : r ≠ pos slots.length r i := by
      intro he
      have := pos_inj h.read_lt (by omega) hin ((pos_zero h.read_lt).trans he)
      omega
    rw [List.getElem?_set_ne hne]
    exact h.vacant i (by simpa using hi) hin

end Holds

/-- The entries met on the walk from `r` to `w`, at most `fuel` of them. -/
def walk (slots : List (Option α)) (w : Nat) : (fuel r : Nat) → List α
  | 0, _ => []
  | fuel + 1, r =>
    if r = w then []
    else ((slots[r]?).join).toList ++ walk slots w fuel ((r + 1) % slots.length)

theorem Holds.walk_from (h : Holds slots r w q) :
    ∀ (i fuel : Nat), i ≤ q.length → q.length - i ≤ fuel →
      walk slots w fuel (pos slots.length r i) = q.drop i := by
  intro i fuel
  induction fuel generalizing i with
  | zero =>
    intro hi hf
    rw [List.drop_eq_nil_of_le (by omega)]; rfl
  | succ fuel ih =>
    intro hi hf
    have hl := h.length_lt
    rw [walk]
    by_cases hend : i = q.length
    · rw [if_pos (by rw [hend, ← h.write_eq]), hend, List.drop_length]
    · have hne : pos slots.length r i ≠ w := by
        rw [h.write_eq]
        intro he
        exact hend (pos_inj h.read_lt (by omega) hl he)
      rw [if_neg hne, h.entry i (by omega), succ_pos_mod, ih (i + 1) (by omega) (by omega)]
      simp

theorem Holds.walk_eq (h : Holds slots r w q) : walk slots w slots.length r = q := by
  have := h.walk_from 0 slots.length (Nat.zero_le _) (by have := h.length_lt; omega)
  rwa [pos_zero h.read_lt] at this

end CircularBuffer
