import SocketServerLib.RacingGameServer.Define
import SocketServerLib.Lib.ChunkedFraming

/-
  `SlideBuffer` of the C# server: a byte array whose first `size` bytes are in use.
  `Enqueue` and `Pop` hold `m_Lock` for the whole change, so each is one step.

  `bytes` is what the buffer holds. Each operation has one lemma that says what it does
  to `bytes`. `GetMsg` looks at the front of the buffer only: it is the framing rule
  `msgFraming`.

  What is assumed: `Array.Copy` copies its source as it was before the call.
-/
namespace CSServer
open RacingGameServer PrefixFraming

structure SlideBuffer where
  buffer : Bytes
  cap : Nat
  size : Nat

namespace SlideBuffer

/-- `new SlideBuffer(cap_)`. -/
def new (cap_ : Nat) : SlideBuffer :=
  { buffer := List.replicate cap_ 0, cap := cap_, size := 0 }

def enqueue (b : SlideBuffer) (msg_ : Bytes) (size_ : Nat) : SlideBuffer × Bool :=
  if size_ < 1 then (b, true)
  else if msg_.length < size_ then (b, false)
  else if b.cap - b.size < size_ then (b, false)
  else
    ({ b with
        buffer := b.buffer.take b.size ++ msg_.take size_ ++ b.buffer.drop (b.size + size_)
        size := b.size + size_ }, true)

def pop (b : SlideBuffer) (size_ : Nat) : SlideBuffer × Bool :=
  if size_ < 1 then (b, true)
  else if b.size < size_ then (b, false)
  else
    ({ b with
        buffer := (b.buffer.drop size_).take (b.size - size_) ++ b.buffer.drop (b.size - size_)
        size := b.size - size_ }, true)

def peek (b : SlideBuffer) : Nat := if b.size < 4 then 0 else readU32 b.buffer 0

/-- The length of the segment given out, if `GetMsg` returns true. -/
def getMsg (b : SlideBuffer) : Option Nat :=
  if b.peek = 0 then none
  else if b.peek > b.size then none
  else some b.peek

/-- The segment of the first `n` bytes. -/
def segment (b : SlideBuffer) (n : Nat) : Bytes := b.buffer.take n

/-- What the buffer holds. -/
def bytes (b : SlideBuffer) : Bytes := b.buffer.take b.size

/-- The array has `cap` bytes, `size` of them in use. -/
structure Wf (b : SlideBuffer) : Prop where
  buffer_length : b.buffer.length = b.cap
  size_le : b.size ≤ b.cap

variable {b : SlideBuffer} {n : Nat}

theorem wf_new (n : Nat) : (new n).Wf := ⟨List.length_replicate, Nat.zero_le n⟩

theorem Wf.bytes_length (h : b.Wf) : b.bytes.length = b.size := by
  have hbuffer := h.buffer_length
  have hsize := h.size_le
  rw [bytes, List.length_take]
  omega

theorem segment_eq (hn : n ≤ b.size) : b.segment n = b.bytes.take n := by
  rw [segment, bytes, List.take_take, Nat.min_eq_left hn]

/-! ## Enqueue and Pop -/

@[simp] theorem enqueue_cap (b : SlideBuffer) (msg_ : Bytes) (size_ : Nat) :
    (b.enqueue msg_ size_).1.cap = b.cap := by
  unfold enqueue
  repeat (first | rfl | split)

@[simp] theorem pop_cap (b : SlideBuffer) (n : Nat) : (b.pop n).1.cap = b.cap := by
  unfold pop
  repeat (first | rfl | split)

/-- What fits is appended. -/
theorem enqueue_fits (h : b.Wf) {msg_ : Bytes} (hmsg : n ≤ msg_.length)
    (hfit : b.size + n ≤ b.cap) :
    (b.enqueue msg_ n).2 = true ∧ (b.enqueue msg_ n).1.bytes = b.bytes ++ msg_.take n ∧
      (b.enqueue msg_ n).1.Wf := by
  by_cases hzero : n < 1
  · obtain rfl : n = 0 := by omega
    rw [enqueue, if_pos hzero, List.take_zero, List.append_nil]
    exact ⟨rfl, rfl, h⟩
  rw [enqueue, if_neg hzero, if_neg (by omega), if_neg (by omega)]
  have hlen : (b.buffer.take b.size ++ msg_.take n).length = b.size + n := by
    rw [List.length_append, List.length_take, List.length_take, h.buffer_length]
    omega
  refine ⟨rfl, List.take_left' hlen, ?_, hfit⟩
  show (b.buffer.take b.size ++ msg_.take n ++ b.buffer.drop (b.size + n)).length = b.cap
  rw [List.length_append, hlen, List.length_drop, h.buffer_length]
  omega

/-- What does not fit leaves the buffer as it was. -/
theorem enqueue_full {msg_ : Bytes} (hfull : b.cap < b.size + n) (hpos : 0 < n) :
    b.enqueue msg_ n = (b, false) := by
  rw [enqueue, if_neg (by omega)]
  split
  · rfl
  · exact if_pos (by omega)

/-- `Enqueue` stores the whole message or nothing. -/
theorem enqueue_cases (h : b.Wf) (msg_ : Bytes) (n : Nat) :
    b.enqueue msg_ n = (b, false) ∨ (b.enqueue msg_ n).2 = true ∧
      (b.enqueue msg_ n).1.bytes = b.bytes ++ msg_.take n ∧ (b.enqueue msg_ n).1.Wf := by
  by_cases hmsg : n ≤ msg_.length
  · by_cases hfit : b.size + n ≤ b.cap
    · exact .inr (enqueue_fits h hmsg hfit)
    · have hsize := h.size_le
      exact .inl (enqueue_full (by omega) (by omega))
  · rw [enqueue, if_neg (by omega), if_pos (by omega)]
    exact .inl rfl

theorem pop_spec (h : b.Wf) (hn : n ≤ b.size) :
    (b.pop n).2 = true ∧ (b.pop n).1.bytes = b.bytes.drop n ∧ (b.pop n).1.Wf := by
  by_cases hzero : n < 1
  · obtain rfl : n = 0 := by omega
    rw [pop, if_pos hzero, List.drop_zero]
    exact ⟨rfl, rfl, h⟩
  have hbuffer := h.buffer_length
  have hsize := h.size_le
  rw [pop, if_neg hzero, if_neg (by omega)]
  have hlen : ((b.buffer.drop n).take (b.size - n)).length = b.size - n := by
    rw [List.length_take, List.length_drop]
    omega
  refine ⟨rfl, ?_, ?_, ?_⟩
  · show ((b.buffer.drop n).take (b.size - n) ++ b.buffer.drop (b.size - n)).take (b.size - n) = _
    rw [List.take_left' hlen, bytes, List.drop_take]
  · show ((b.buffer.drop n).take (b.size - n) ++ b.buffer.drop (b.size - n)).length = b.cap
    rw [List.length_append, hlen, List.length_drop]
    omega
  · show b.size - n ≤ b.cap
    omega

/-! ## The messages in the buffer -/

/-- The framing rule of `GetMsg`: four bytes, a length that is not 0, and that many bytes. -/
def msgFraming : PrefixFraming UInt8 :=
  lengthField 4 (readU32 · 0) fun _ t h => readU32_append (by omega) t

theorem msgFraming_next (s : Bytes) : msgFraming.next s =
    if 4 ≤ s.length ∧ 0 < readU32 s 0 ∧ readU32 s 0 ≤ s.length then some (readU32 s 0)
    else none := rfl

theorem Wf.getMsg (h : b.Wf) : b.getMsg = msgFraming.next b.bytes := by
  rw [SlideBuffer.getMsg, msgFraming_next, h.bytes_length, peek]
  by_cases h4 : b.size < 4
  · rw [if_pos h4, if_pos rfl, if_neg (by omega)]
  · have hread : readU32 b.buffer 0 = readU32 b.bytes 0 := by
      rw [bytes, readU32, readU32, List.drop_zero, List.drop_zero, List.take_take,
        Nat.min_eq_left (by omega)]
    rw [if_neg h4, hread]
    by_cases hzero : readU32 b.bytes 0 = 0
    · rw [if_pos hzero, if_neg (by omega)]
    · rw [if_neg hzero]
      by_cases hlong : readU32 b.bytes 0 > b.size
      · rw [if_pos hlong, if_neg (by omega)]
      · rw [if_neg hlong, if_pos (by omega)]

end SlideBuffer

end CSServer
