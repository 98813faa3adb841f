import Mathlib.Data.List.Basic

/-
  Ranges of a memory: what lies at an offset, and what a copy to an offset leaves.

  A memory is a list of cells of any type. `slice m o n` are the `n` cells from offset `o`
  on, `copyTo m o src` is the memory after `src` has been copied there. A copy is within
  bounds if its range ends inside the memory; it then keeps the length of the memory, is
  read back where it was made, and leaves every range beside it alone. Copies made one
  behind the other are one copy, and of several copies that are apart each is read back.
-/
namespace ByteRange

variable {α : Type*}

/-- The cells from offset `o` on, `n` of them. -/
def slice (m : List α) (o n : Nat) : List α := (m.drop o).take n

/-- The memory after a copy to offset `o`. -/
def copyTo (m : List α) (o : Nat) (src : List α) : List α :=
  m.take o ++ src ++ m.drop (o + src.length)

variable {m a b src : List α} {o o' n k : Nat}

theorem length_slice (h : o + n ≤ m.length) : (slice m o n).length = n := by
  rw [slice, List.length_take, List.length_drop]
  omega

theorem slice_append_left (h : o + n ≤ a.length) (b : List α) :
    slice (a ++ b) o n = slice a o n := by
  rw [slice, slice, List.drop_append_of_le_length (by omega), List.take_append_of_le_length]
  rw [List.length_drop]
  omega

theorem slice_append_right (a b : List α) (o n : Nat) :
    slice (a ++ b) (a.length + o) n = slice b o n := by
  rw [slice, slice, List.drop_append, List.drop_eq_nil_of_le (by omega), List.nil_append]
  congr 2
  omega

/-- The range behind what stands before it. -/
theorem slice_at (h : a.length = o) (b : List α) (n : Nat) : slice (a ++ b) o n = b.take n := by
  rw [slice, List.drop_left' h]

/-- A range of a range. -/
theorem slice_slice (h : o' + n ≤ k) : slice (slice m o k) o' n = slice m (o + o') n := by
  rw [slice, slice, slice, List.drop_take, List.take_take, List.drop_drop,
    Nat.min_eq_left (by omega)]

theorem length_copyTo (h : o + src.length ≤ m.length) : (copyTo m o src).length = m.length := by
  simp only [copyTo, List.length_append, List.length_take, List.length_drop]
  omega

/-- A copy is read back. -/
theorem slice_copyTo (h : o ≤ m.length) : slice (copyTo m o src) o src.length = src := by
  have htake : (m.take o).length = o := List.length_take_of_le h
  rw [copyTo, List.append_assoc, slice_at htake, List.take_left]

/-- A range before a copy is left alone. -/
theorem slice_copyTo_before (h : o' + n ≤ o) (hm : o ≤ m.length) :
    slice (copyTo m o src) o' n = slice m o' n := by
  have htake : (m.take o).length = o := List.length_take_of_le hm
  calc slice (copyTo m o src) o' n = slice (m.take o) o' n := by
        rw [copyTo, List.append_assoc, slice_append_left (by omega)]
    _ = slice (m.take o ++ m.drop o) o' n := (slice_append_left (by omega) _).symm
    _ = slice m o' n := by rw [List.take_append_drop]

/-- And so is a range behind it. -/
theorem slice_copyTo_after (h : o + src.length ≤ o') (hm : o ≤ m.length) (n : Nat) :
    slice (copyTo m o src) o' n = slice m o' n := by
  obtain ⟨k, rfl⟩ := Nat.exists_eq_add_of_le h
  have hlen : (m.take o ++ src).length = o + src.length := by
    rw [List.length_append, List.length_take_of_le hm]
  rw [copyTo, ← hlen, slice_append_right, hlen, slice, slice, List.drop_drop]

/-- Two copies, the second behind the first, are one. -/
theorem copyTo_copyTo (hm : o ≤ m.length) (a b : List α) :
    copyTo (copyTo m o a) (o + a.length) b = copyTo m o (a ++ b) := by
  have hlen : (m.take o ++ a).length = o + a.length := by
    rw [List.length_append, List.length_take_of_le hm]
  have hdrop : (m.take o ++ a ++ m.drop (o + a.length)).drop (o + a.length + b.length) =
      m.drop (o + a.length + b.length) := by
    calc (m.take o ++ a ++ m.drop (o + a.length)).drop (o + a.length + b.length)
        = ((m.take o ++ a ++ m.drop (o + a.length)).drop (o + a.length)).drop b.length :=
          (List.drop_drop ..).symm
      _ = (m.drop (o + a.length)).drop b.length := by rw [List.drop_left' hlen]
      _ = m.drop (o + a.length + b.length) := List.drop_drop ..
  rw [copyTo, copyTo, copyTo, List.take_left' hlen, hdrop, List.length_append, Nat.add_assoc]
  simp only [List.append_assoc]

/-! ## Several copies -/

/-- The memory after copies made one after the other, each with its offset. -/
def copyAll : List α → List (Nat × List α) → List α
  | m, [] => m
  | m, (o, src) :: ws => copyAll (copyTo m o src) ws

/-- Two copies with no cell in common. -/
def Apart (w w' : Nat × List α) : Prop := w.1 + w.2.length ≤ w'.1 ∨ w'.1 + w'.2.length ≤ w.1

/-- All copies are within bounds. -/
def Within (m : List α) (ws : List (Nat × List α)) : Prop := ∀ w ∈ ws, w.1 + w.2.length ≤ m.length

variable {ws : List (Nat × List α)} {w : Nat × List α}

theorem Within.tail (h : Within m (w :: ws)) : Within (copyTo m w.1 w.2) ws := by
  intro w' hw'
  rw [length_copyTo (h w List.mem_cons_self)]
  exact h w' (List.mem_cons_of_mem w hw')

theorem length_copyAll (h : Within m ws) : (copyAll m ws).length = m.length := by
  induction ws generalizing m with
  | nil => rfl
  | cons w ws ih =>
    calc (copyAll m (w :: ws)).length = (copyTo m w.1 w.2).length := ih h.tail
      _ = m.length := length_copyTo (h w List.mem_cons_self)

/-- A range apart from all copies is left alone. -/
theorem slice_copyAll_apart (h : Within m ws)
    (hapart : ∀ w ∈ ws, o + n ≤ w.1 ∨ w.1 + w.2.length ≤ o) :
    slice (copyAll m ws) o n = slice m o n := by
  induction ws generalizing m with
  | nil => rfl
  | cons w ws ih =>
    have hw := h w List.mem_cons_self
    calc slice (copyAll m (w :: ws)) o n = slice (copyTo m w.1 w.2) o n :=
          ih h.tail fun w' hw' => hapart w' (List.mem_cons_of_mem w hw')
      _ = slice m o n := by
          rcases hapart w List.mem_cons_self with hbefore | hafter
          · exact slice_copyTo_before hbefore (by omega)
          · exact slice_copyTo_after hafter (by omega) n

/-- Each of several copies that are apart is read back. -/
theorem slice_copyAll (h : Within m ws) (hapart : ws.Pairwise Apart) (hw : w ∈ ws) :
    slice (copyAll m ws) w.1 w.2.length = w.2 := by
  induction ws generalizing m with
  | nil => cases hw
  | cons w' ws ih =>
    obtain ⟨hfirst, hrest⟩ := List.pairwise_cons.mp hapart
    rcases List.mem_cons.mp hw with rfl | hw
    · have hle := h w List.mem_cons_self
      calc slice (copyAll m (w :: ws)) w.1 w.2.length
          = slice (copyTo m w.1 w.2) w.1 w.2.length :=
            slice_copyAll_apart h.tail fun w' hw' => hfirst w' hw'
        _ = w.2 := slice_copyTo (by omega)
    · exact ih h.tail hrest hw

end ByteRange
