import SocketServerLib.CSServer.SlideBuffer
import SocketServerLib.Lib.Answering
import SocketServerLib.Lib.BoundedFifo

/-
  `SlideBuffer` of the C# server as a queue of bytes.

  The operations are written out with all that could go wrong in them: an `Array.Copy` whose
  ranges do not lie in the arrays throws, and a `uint` expression that would wrap is a failure
  here as well; `none` is either. An operation is its locked section, with the tests before
  it, which look at its arguments only. `Answer` has the target array as the call leaves it.

  What is proved:
    1. `Checked.enqueue_eq`, `Checked.pop_eq`, `Checked.dequeue_eq` — on a buffer whose array
       and size agree nothing goes wrong.
    2. `step_simulates` — the buffer simulates a bounded queue.
    3. `slideBuffer_fifo` — every sequence of operations is answered as the queue answers it,
       and what returns false changes nothing.

  What is assumed: `Array.Copy` copies its source as it was before the call, and a locked section
  runs alone, which `SlideThreads` proves.
-/
namespace CSServer
open RacingGameServer (Bytes)
open Answering

/-- `int.MaxValue`. -/
def intMaxValue : Nat := 2 ^ 31 - 1

/-- `Array.MaxLength`: there is no longer array of bytes. -/
def arrayMaxLength : Nat := 0x7FFFFFC7

/-- `Array.Copy` copies its source as it was before the call. -/
def arrayCopy (sourceArray : Bytes) (sourceIndex : Nat) (destinationArray : Bytes)
    (destinationIndex length : Nat) : Option Bytes :=
  if sourceIndex ≤ intMaxValue ∧ destinationIndex ≤ intMaxValue ∧ length ≤ intMaxValue ∧
      sourceIndex + length ≤ sourceArray.length ∧
      destinationIndex + length ≤ destinationArray.length then
    some (destinationArray.take destinationIndex ++
      (sourceArray.drop sourceIndex).take length ++
      destinationArray.drop (destinationIndex + length))
  else none

/-- A sum of two `uint`. -/
def uintAdd (a b : Nat) : Option Nat := if a + b < 2 ^ 32 then some (a + b) else none

/-- A difference of two `uint`. -/
def uintSub (a b : Nat) : Option Nat := if b ≤ a then some (a - b) else none

namespace SlideBuffer

/-- The constructor; `new byte[cap_]` throws where there is no such array. -/
def construct (cap_ : UInt32) : Option SlideBuffer :=
  if cap_.toNat ≤ arrayMaxLength then some (new cap_.toNat) else none

namespace Checked

def enqueue (b : SlideBuffer) (msg_ : Bytes) (size_ : Nat) : Option (SlideBuffer × Bool) :=
  if size_ < 1 then some (b, true)
  else if msg_.length < size_ then some (b, false)
  else do
    let room ← uintSub b.cap b.size
    if room < size_ then return (b, false)
    let buffer ← arrayCopy msg_ 0 b.buffer b.size size_
    let size ← uintAdd b.size size_
    return ({ b with buffer := buffer, size := size }, true)

/-- The last component is `buf_` after the call. -/
def dequeue (b : SlideBuffer) (buf_ : Bytes) (size_ : Nat) :
    Option (SlideBuffer × Bool × Bytes) :=
  if size_ < 1 then some (b, true, buf_)
  else if buf_.length < size_ then some (b, false, buf_)
  else if b.size < size_ then some (b, false, buf_)
  else do
    let buf ← arrayCopy b.buffer 0 buf_ 0 size_
    let left ← uintSub b.size size_
    let buffer ← arrayCopy b.buffer size_ b.buffer 0 left
    return ({ b with buffer := buffer, size := left }, true, buf)

def pop (b : SlideBuffer) (size_ : Nat) : Option (SlideBuffer × Bool) :=
  if size_ < 1 then some (b, true)
  else if b.size < size_ then some (b, false)
  else do
    let left ← uintSub b.size size_
    let buffer ← arrayCopy b.buffer size_ b.buffer 0 left
    return ({ b with buffer := buffer, size := left }, true)

end Checked

/-- A call, with its arguments. -/
inductive Op where
  | enqueue (msg_ : Bytes) (size_ : UInt32)
  | dequeue (buf_ : Bytes) (size_ : UInt32)
  | pop (size_ : UInt32)

/-- What a call returns, and the target array after it, if it has one. -/
structure Answer where
  ret : Bool
  target : Option Bytes
  deriving DecidableEq

/-- The target array before the call. -/
def Op.target : Op → Option Bytes
  | .dequeue buf_ _ => some buf_
  | _ => none

def step (b : SlideBuffer) : Op → Option (SlideBuffer × Answer)
  | .enqueue msg_ size_ =>
    (Checked.enqueue b msg_ size_.toNat).map fun r => (r.1, { ret := r.2, target := none })
  | .dequeue buf_ size_ =>
    (Checked.dequeue b buf_ size_.toNat).map fun r =>
      (r.1, { ret := r.2.1, target := some r.2.2 })
  | .pop size_ =>
    (Checked.pop b size_.toNat).map fun r => (r.1, { ret := r.2, target := none })

/-- The calls on a queue of bytes. -/
def spec {cap : Nat} (q : BoundedFifo UInt8 cap) : Op → BoundedFifo UInt8 cap × Answer
  | .enqueue msg_ size_ =>
    if size_.toNat ≤ msg_.length then
      let r := q.enqueue (msg_.take size_.toNat)
      (r.1, { ret := r.2, target := none })
    else (q, { ret := false, target := none })
  | .dequeue buf_ size_ =>
    if size_.toNat ≤ buf_.length ∧ size_.toNat ≤ q.items.length then
      let r := q.dequeue size_.toNat
      (r.1, { ret := true, target := some (r.2 ++ buf_.drop size_.toNat) })
    else (q, { ret := false, target := some buf_ })
  | .pop size_ =>
    let r := q.pop size_.toNat
    (r.1, { ret := r.2, target := none })

/-- The buffer holds the items of the queue. -/
structure Holds {cap : Nat} (b : SlideBuffer) (q : BoundedFifo UInt8 cap) : Prop where
  wf : b.Wf
  cap_eq : b.cap = cap
  bytes_eq : b.bytes = q.items

variable {b b' : SlideBuffer} {n : Nat}

/-! ## Nothing goes wrong -/

/-- A range of the array in use is copied to the front. -/
theorem arrayCopy_front (h : b.Wf) (hcap : b.cap ≤ arrayMaxLength) (hn : n ≤ b.size) :
    arrayCopy b.buffer n b.buffer 0 (b.size - n) =
      some ((b.buffer.drop n).take (b.size - n) ++ b.buffer.drop (b.size - n)) := by
  have hbuffer := h.buffer_length
  have hsize := h.size_le
  simp only [arrayMaxLength] at hcap
  rw [arrayCopy, if_pos (by simp only [intMaxValue]; omega), List.take_zero, List.nil_append,
    Nat.zero_add]

namespace Checked

theorem enqueue_eq (h : b.Wf) (hcap : b.cap ≤ arrayMaxLength) (msg_ : Bytes) (n : Nat) :
    enqueue b msg_ n = some (b.enqueue msg_ n) := by
  unfold enqueue SlideBuffer.enqueue
  have hbuffer := h.buffer_length
  have hsize := h.size_le
  split
  · rfl
  split
  · rfl
  next hmsg =>
    rw [uintSub, if_pos hsize]
    simp only [Option.bind_eq_bind, Option.bind_some, Option.pure_def]
    split
    · rfl
    · next hroom =>
      simp only [arrayMaxLength] at hcap
      rw [arrayCopy, if_pos (by simp only [intMaxValue]; omega), uintAdd, if_pos (by omega)]
      rfl

theorem pop_eq (h : b.Wf) (hcap : b.cap ≤ arrayMaxLength) (n : Nat) :
    pop b n = some (b.pop n) := by
  unfold pop SlideBuffer.pop
  split
  · rfl
  split
  · rfl
  next hn =>
    rw [uintSub, if_pos (Nat.le_of_not_lt hn)]
    simp only [Option.bind_eq_bind, Option.bind_some, Option.pure_def]
    rw [arrayCopy_front h hcap (Nat.le_of_not_lt hn)]
    rfl

/-- `Dequeue` is a `Pop` that writes what it removes to the target. -/
theorem dequeue_eq (h : b.Wf) (hcap : b.cap ≤ arrayMaxLength) (buf_ : Bytes) (n : Nat) :
    dequeue b buf_ n =
      if n ≤ buf_.length ∧ n ≤ b.size then
        some ((b.pop n).1, true, b.bytes.take n ++ buf_.drop n)
      else some (b, false, buf_) := by
  have hbuffer := h.buffer_length
  have hsize := h.size_le
  unfold dequeue SlideBuffer.pop
  by_cases hzero : n < 1
  · obtain rfl : n = 0 := by omega
    rw [if_pos hzero, if_pos ⟨Nat.zero_le _, Nat.zero_le _⟩, if_pos hzero]
    rfl
  rw [if_neg hzero, if_neg hzero]
  by_cases hbuf : buf_.length < n
  · rw [if_pos hbuf, if_neg (by omega)]
  by_cases hn : b.size < n
  · rw [if_neg hbuf, if_pos hn, if_neg (by omega)]
  rw [if_neg hbuf, if_neg hn, if_pos (by omega), if_neg hn]
  have htake : b.bytes.take n = b.buffer.take n := by
    rw [bytes, List.take_take, Nat.min_eq_left (Nat.le_of_not_lt hn)]
  have hfront := arrayCopy_front h hcap (Nat.le_of_not_lt hn)
  simp only [arrayMaxLength] at hcap
  rw [arrayCopy, if_pos (by simp only [intMaxValue]; omega), uintSub,
    if_pos (Nat.le_of_not_lt hn), htake]
  simp only [Option.bind_eq_bind, Option.bind_some, Option.pure_def, hfront, List.take_zero,
    List.drop_zero, List.nil_append, Nat.zero_add]

end Checked

/-! ## The queue -/

variable {cap : Nat} {q : BoundedFifo UInt8 cap}

theorem Holds.size_eq (h : b.Holds q) : b.size = q.items.length := by
  rw [← h.bytes_eq, h.wf.bytes_length]

theorem holds_new (cap : Nat) : (new cap).Holds (BoundedFifo.empty : BoundedFifo UInt8 cap) :=
  ⟨wf_new cap, rfl, List.take_zero⟩

theorem Holds.pop (h : b.Holds q) (hn : n ≤ b.size) : (b.pop n).1.Holds (q.drop n) := by
  obtain ⟨-, hbytes, hwf⟩ := pop_spec h.wf hn
  refine ⟨hwf, (pop_cap b n).trans h.cap_eq, ?_⟩
  rw [hbytes, h.bytes_eq]
  rfl

theorem Holds.enqueue (h : b.Holds q) (hcap : cap ≤ arrayMaxLength) (msg_ : Bytes)
    (size_ : UInt32) :
    ∃ b', step b (.enqueue msg_ size_) = some (b', (spec q (.enqueue msg_ size_)).2) ∧
      b'.Holds (spec q (.enqueue msg_ size_)).1 := by
  have hroom := h.cap_eq
  have hsize := h.size_eq
  have hlen : size_.toNat ≤ msg_.length → (msg_.take size_.toNat).length = size_.toNat :=
    List.length_take_of_le
  simp only [step, spec, Checked.enqueue_eq h.wf (h.cap_eq ▸ hcap), Option.map_some]
  by_cases hmsg : size_.toNat ≤ msg_.length
  · rw [if_pos hmsg]
    by_cases hfit : b.size + size_.toNat ≤ b.cap
    · obtain ⟨hret, hbytes, hwf⟩ := enqueue_fits h.wf hmsg hfit
      have hfit' : q.items.length + (msg_.take size_.toNat).length ≤ cap := by
        rw [hlen hmsg]
        omega
      obtain ⟨hitems, hret'⟩ := BoundedFifo.enqueue_fits hfit'
      rw [hret, hret']
      refine ⟨_, rfl, hwf, (enqueue_cap ..).trans h.cap_eq, ?_⟩
      rw [hbytes, hitems, h.bytes_eq]
    · have hsize_le := h.wf.size_le
      rw [enqueue_full (by omega) (by omega), BoundedFifo.enqueue_full]
      · exact ⟨b, rfl, h⟩
      · rw [hlen hmsg]
        omega
  · rw [if_neg hmsg, SlideBuffer.enqueue, if_neg (by omega), if_pos (by omega)]
    exact ⟨b, rfl, h⟩

theorem Holds.dequeue (h : b.Holds q) (hcap : cap ≤ arrayMaxLength) (buf_ : Bytes)
    (size_ : UInt32) :
    ∃ b', step b (.dequeue buf_ size_) = some (b', (spec q (.dequeue buf_ size_)).2) ∧
      b'.Holds (spec q (.dequeue buf_ size_)).1 := by
  simp only [step, spec, Checked.dequeue_eq h.wf (h.cap_eq ▸ hcap), h.size_eq]
  split
  · next hn =>
    rw [h.bytes_eq]
    exact ⟨_, rfl, h.pop (h.size_eq ▸ hn.2)⟩
  · exact ⟨b, rfl, h⟩

theorem Holds.pop_step (h : b.Holds q) (hcap : cap ≤ arrayMaxLength) (size_ : UInt32) :
    ∃ b', step b (.pop size_) = some (b', (spec q (.pop size_)).2) ∧
      b'.Holds (spec q (.pop size_)).1 := by
  simp only [step, spec, Checked.pop_eq h.wf (h.cap_eq ▸ hcap), Option.map_some]
  by_cases hn : size_.toNat ≤ b.size
  · rw [(pop_spec h.wf hn).1, BoundedFifo.pop_held (h.size_eq ▸ hn)]
    exact ⟨_, rfl, h.pop hn⟩
  · rw [BoundedFifo.pop_short (h.size_eq ▸ hn), SlideBuffer.pop, if_neg (by omega),
      if_pos (by omega)]
    exact ⟨b, rfl, h⟩

/-- The buffer simulates a queue with room for as many bytes as its array has. -/
theorem step_simulates (hcap : cap ≤ arrayMaxLength) :
    Simulates step (@spec cap) Holds := by
  intro b q op h
  cases op with
  | enqueue msg_ size_ => exact h.enqueue hcap msg_ size_
  | dequeue buf_ size_ => exact h.dequeue hcap buf_ size_
  | pop size_ => exact h.pop_step hcap size_

/-- What returns false leaves the buffer and the target array as they were. -/
theorem step_failed {op : Op} {ans : Answer} (h : b.Wf) (hcap : b.cap ≤ arrayMaxLength)
    (hstep : step b op = some (b', ans)) (hret : ans.ret = false) :
    b' = b ∧ ans.target = op.target := by
  cases op with
  | enqueue msg_ size_ =>
    simp only [step, Checked.enqueue_eq h hcap, Option.map_some] at hstep
    obtain ⟨rfl, rfl⟩ := Prod.mk.inj (Option.some.inj hstep)
    rcases enqueue_cases h msg_ size_.toNat with hfail | ⟨htrue, -⟩
    · rw [hfail]
      exact ⟨rfl, rfl⟩
    · cases htrue.symm.trans hret
  | dequeue buf_ size_ =>
    simp only [step, Checked.dequeue_eq h hcap] at hstep
    split at hstep
    · obtain ⟨-, rfl⟩ := Prod.mk.inj (Option.some.inj hstep)
      cases hret
    · obtain ⟨rfl, rfl⟩ := Prod.mk.inj (Option.some.inj hstep)
      exact ⟨rfl, rfl⟩
  | pop size_ =>
    simp only [step, Checked.pop_eq h hcap, Option.map_some] at hstep
    obtain ⟨rfl, rfl⟩ := Prod.mk.inj (Option.some.inj hstep)
    by_cases hn : size_.toNat ≤ b.size
    · cases (pop_spec h hn).1.symm.trans hret
    · rw [SlideBuffer.pop, if_neg (by omega), if_pos (by omega)]
      exact ⟨rfl, rfl⟩

/-- Every sequence of calls on a new buffer goes through with no copy out of range and no
expression that wraps, and is answered as the queue answers it; the buffer then holds what the
queue holds, and a further call that returns false changes nothing. -/
theorem slideBuffer_fifo {cap_ : UInt32} {b₀ : SlideBuffer} (hnew : construct cap_ = some b₀)
    (ops : List Op) :
    ∃ b, answers step b₀ ops =
        some (b, (responses spec (BoundedFifo.empty : BoundedFifo UInt8 cap_.toNat) ops).2) ∧
      b.bytes =
        (responses spec (BoundedFifo.empty : BoundedFifo UInt8 cap_.toNat) ops).1.items ∧
      b.size = b.bytes.length ∧ b.size ≤ b.cap ∧ b.cap = cap_.toNat ∧
      ∀ op, ∃ b' ans, step b op = some (b', ans) ∧
        (ans.ret = false → b' = b ∧ ans.target = op.target) := by
  unfold construct at hnew
  split at hnew
  · next hcap =>
    obtain rfl := Option.some.inj hnew
    obtain ⟨b, hans, hholds⟩ := (step_simulates hcap).answers (holds_new cap_.toNat) ops
    refine ⟨b, hans, hholds.bytes_eq, hholds.wf.bytes_length.symm, hholds.wf.size_le,
      hholds.cap_eq, fun op => ?_⟩
    obtain ⟨b', hstep, -⟩ := step_simulates hcap b _ op hholds
    refine ⟨b', _, hstep, fun hret => ?_⟩
    exact step_failed hholds.wf (hholds.cap_eq ▸ hcap) hstep hret
  · cases hnew

/-- A buffer of four bytes: it takes three, not two more, gives two and takes them then. -/
theorem slideBuffer_fifo_four :
    ∃ b, answers step (new 4) [.enqueue [1, 2, 3] 3, .enqueue [4, 5] 2, .dequeue [9, 9, 9] 2,
        .enqueue [4, 5] 2, .pop 4] =
        some (b, [⟨true, none⟩, ⟨false, none⟩, ⟨true, some [1, 2, 9]⟩, ⟨true, none⟩,
          ⟨false, none⟩]) ∧
      b.bytes = [3, 4, 5] := by
  obtain ⟨b, hans, hbytes, -⟩ := @slideBuffer_fifo 4 (new 4) rfl
    [.enqueue [1, 2, 3] 3, .enqueue [4, 5] 2, .dequeue [9, 9, 9] 2, .enqueue [4, 5] 2, .pop 4]
  exact ⟨b, hans, hbytes⟩

end SlideBuffer

end CSServer
