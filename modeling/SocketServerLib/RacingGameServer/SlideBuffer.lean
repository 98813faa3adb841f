import SocketServerLib.RacingGameServer.Define
import SocketServerLib.Lib.ChunkedFraming

/-
  `SlideBuffer`: the receive buffer, a byte array whose first `m_Size` bytes are
  in use.

  `bytes` is what the buffer holds. Each operation has one lemma that says what
  it does to `bytes`; nothing above this file unfolds an operation.

  What is assumed: `CopyMemory` copies its source as it was before the call.
-/
namespace RacingGameServer
open PrefixFraming

structure SlideBuffer where
  data : Bytes
  size : Nat
  capacity : Nat

namespace SlideBuffer

/-- The buffer after `Init(capacity_)`; the array's first contents are immaterial. -/
def init (capacity_ : Nat) : SlideBuffer :=
  { data := List.replicate capacity_ 0, size := 0, capacity := capacity_ }

def clear (b : SlideBuffer) : SlideBuffer := { b with size := 0 }

/-- `in_` is `none` for a null pointer. -/
def enqueue (b : SlideBuffer) (in_ : Option Bytes) (size_ : Nat) : SlideBuffer × Bool :=
  match in_ with
  | none => (b, false)
  | some src =>
    -- the sum is taken in `uint32_t`
    if (size_ + b.size) % 2 ^ 32 > b.capacity then (b, false)
    else
      ({ b with
          data := b.data.take b.size ++ src.take size_ ++ b.data.drop (b.size + size_)
          size := (b.size + size_) % 2 ^ 32 }, true)

def pop (b : SlideBuffer) (size_ : Nat) : SlideBuffer × Bool :=
  if size_ > b.size then (b, false)
  else
    ({ b with
        data := (b.data.drop size_).take (b.size - size_) ++ b.data.drop (b.size - size_)
        size := b.size - size_ }, true)

def peek (b : SlideBuffer) : Nat :=
  if b.size < 5 ∨ b.capacity < 5 then 0 else readU32 b.data 0

def isEmpty (b : SlideBuffer) : Bool := b.size == 0

/-- What the buffer holds. -/
def bytes (b : SlideBuffer) : Bytes := b.data.take b.size

/-- The array has `m_Capacity` bytes, `m_Size` of them in use. -/
structure Wf (b : SlideBuffer) : Prop where
  data_length : b.data.length = b.capacity
  size_le : b.size ≤ b.capacity

variable {b : SlideBuffer}

theorem Wf.bytes_length (h : b.Wf) : b.bytes.length = b.size := by
  have := h.data_length
  have := h.size_le
  simp only [bytes, List.length_take]
  omega

theorem Wf.isEmpty_iff (h : b.Wf) : b.isEmpty = true ↔ b.bytes = [] := by
  rw [isEmpty, beq_iff_eq, ← List.length_eq_zero_iff, h.bytes_length]

theorem wf_init (n : Nat) : (init n).Wf := ⟨by simp [init], Nat.zero_le _⟩

theorem Wf.clear (h : b.Wf) : b.clear.Wf := ⟨h.data_length, Nat.zero_le _⟩

/-! ## Enqueue -/

@[simp] theorem capacity_enqueue (b : SlideBuffer) (o : Option Bytes) (n : Nat) :
    (b.enqueue o n).1.capacity = b.capacity := by
  unfold enqueue
  split
  · rfl
  · split <;> rfl

/-- What fits is appended. -/
theorem enqueue_fits (h : b.Wf) (src : Bytes) (hcap : b.capacity < 2 ^ 32)
    (hfit : b.size + src.length ≤ b.capacity) :
    (b.enqueue (some src) src.length).2 = true ∧
      (b.enqueue (some src) src.length).1.bytes = b.bytes ++ src ∧
      (b.enqueue (some src) src.length).1.Wf := by
  have hmod : (src.length + b.size) % 2 ^ 32 = b.size + src.length := by
    rw [Nat.add_comm]; exact Nat.mod_eq_of_lt (by omega)
  have hmod' : (b.size + src.length) % 2 ^ 32 = b.size + src.length :=
    Nat.mod_eq_of_lt (by omega)
  have hd := h.data_length
  have hb := h.bytes_length
  have hnot : ¬ b.size + src.length > b.capacity := by omega
  simp only [enqueue, hmod, hmod', if_neg hnot]
  refine ⟨trivial, ?_, ?_, ?_⟩
  · have hlen : (b.data.take b.size ++ src).length = b.size + src.length := by
      rw [List.length_append]; exact congrArg (· + src.length) hb
    simp only [bytes, List.take_length]
    rw [List.take_left' hlen]
  · simp only [List.length_append, List.length_take, List.length_drop]
    omega
  · exact hfit

/-- A new buffer holds what is put into it. -/
theorem enqueue_init {capacity_ : Nat} (hcap : capacity_ < 2 ^ 32) {src : Bytes}
    (hfit : src.length ≤ capacity_) :
    ((init capacity_).enqueue (some src) src.length).1.Wf ∧
      ((init capacity_).enqueue (some src) src.length).1.bytes = src := by
  have hfit' : (init capacity_).size + src.length ≤ (init capacity_).capacity := by
    rw [init, Nat.zero_add]
    exact hfit
  obtain ⟨-, hbytes, hwf⟩ := enqueue_fits (wf_init capacity_) src hcap hfit'
  rw [hbytes, bytes, init, List.take_zero]
  exact ⟨hwf, List.nil_append src⟩

/-- What does not fit leaves the buffer as it was. -/
theorem enqueue_full (src : Bytes) (hlt : b.size + src.length < 2 ^ 32)
    (hfull : b.capacity < b.size + src.length) :
    b.enqueue (some src) src.length = (b, false) := by
  have hmod : (src.length + b.size) % 2 ^ 32 = b.size + src.length := by
    rw [Nat.add_comm]; exact Nat.mod_eq_of_lt (by omega)
  simp only [enqueue, hmod, if_pos (show b.size + src.length > b.capacity from hfull)]

/-! ## Pop -/

@[simp] theorem capacity_pop (b : SlideBuffer) (n : Nat) : (b.pop n).1.capacity = b.capacity := by
  unfold pop; split <;> rfl

theorem pop_spec (h : b.Wf) {n : Nat} (hn : n ≤ b.size) :
    (b.pop n).2 = true ∧ (b.pop n).1.bytes = b.bytes.drop n ∧ (b.pop n).1.Wf := by
  have hd := h.data_length
  have hs := h.size_le
  have hnot : ¬ n > b.size := by omega
  simp only [pop, if_neg hnot]
  have hlen : ((b.data.drop n).take (b.size - n)).length = b.size - n := by
    simp only [List.length_take, List.length_drop]; omega
  refine ⟨trivial, ?_, ?_, ?_⟩
  · simp only [bytes]
    rw [List.take_left' hlen, List.drop_take]
  · simp only [List.length_append, hlen, List.length_drop]
    omega
  · show b.size - n ≤ b.capacity
    omega

theorem Wf.pop (h : b.Wf) (n : Nat) : (b.pop n).1.Wf := by
  by_cases hn : n ≤ b.size
  · exact (pop_spec h hn).2.2
  · simpa only [SlideBuffer.pop, if_pos (show n > b.size by omega)] using h

/-! ## Peek -/

theorem readU32_bytes (h : 4 ≤ b.size) : readU32 b.data 0 = readU32 b.bytes 0 := by
  simp only [readU32, List.drop_zero, bytes, List.take_take]
  rw [Nat.min_eq_left h]

/-- Where 5 bytes are in use, the array has them. -/
theorem Wf.peek (h : b.Wf) : b.peek = if b.bytes.length < 5 then 0 else readU32 b.bytes 0 := by
  have hsize := h.size_le
  rw [h.bytes_length, SlideBuffer.peek]
  by_cases hfive : b.size < 5
  · rw [if_pos (Or.inl hfive), if_pos hfive]
  · rw [if_neg (by omega), if_neg hfive, readU32_bytes (by omega)]

/-- `Peek` answers with the length of the frame at the front, where it is not 0 and the buffer has
as much. -/
theorem Wf.next_peek (h : b.Wf) : (lengthField 5 (readU32 · 0) readU32_front).next b.bytes =
    if 0 < b.peek ∧ b.peek ≤ b.size then some b.peek else none := by
  have hlen := h.bytes_length
  rw [h.peek]
  by_cases hfive : b.bytes.length < 5
  · rw [if_pos hfive, if_neg (by omega)]
    exact if_neg (by omega)
  · rw [if_neg hfive, ← hlen]
    by_cases hthere : 0 < readU32 b.bytes 0 ∧ readU32 b.bytes 0 ≤ b.bytes.length
    · rw [if_pos hthere]
      exact if_pos ⟨by omega, hthere⟩
    · rw [if_neg hthere]
      exact if_neg fun hall => hthere hall.2

/-- A view of the first bytes in use reads what the buffer holds. -/
theorem take_data (b : SlideBuffer) {n : Nat} (hn : n ≤ b.size) :
    b.data.take n = b.bytes.take n := by
  rw [bytes, List.take_take, Nat.min_eq_left hn]

end SlideBuffer

end RacingGameServer
