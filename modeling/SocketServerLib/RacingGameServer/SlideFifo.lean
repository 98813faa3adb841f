import SocketServerLib.RacingGameServer.SlideBuffer
import SocketServerLib.Lib.Answering
import SocketServerLib.Lib.BoundedFifo
import Mathlib.Algebra.Group.Nat.Defs

/-
  `SlideBuffer` as a queue of bytes.

  The operations are written out with their copies: a `CopyMemory` whose ranges do not lie in
  its two arrays is a failure.
  What the callers promise is a field of what they hand in: `Source` has the bytes that it is
  said to have, at most as many as one posted receive, and `Target` has the room.

  What is proved:
    1. `Checked.enqueue_eq`, `Checked.pop_eq`, `Checked.dequeue_eq`, `Checked.peek_eq` — on a
       buffer whose array and size agree no copy leaves its arrays.
    2. `step_simulates` — the buffer simulates a bounded queue.
    3. `receive_buffer_fifo` — every sequence of operations is answered as the queue answers
       it, and what returns false changes nothing.

  What is assumed: a `CopyMemory` within the arrays copies its source as it was before the call,
  and the callers keep their promises (`Source`, `Target`).
-/
namespace RacingGameServer
open Answering

/-- `length` bytes of `source`, from `sourceIndex` on, to `destination`, from
`destinationIndex` on. -/
def copyMemory (destination : Bytes) (destinationIndex : Nat) (source : Bytes)
    (sourceIndex length : Nat) : Option Bytes :=
  if sourceIndex + length ≤ source.length ∧ destinationIndex + length ≤ destination.length then
    some (destination.take destinationIndex ++ (source.drop sourceIndex).take length ++
      destination.drop (destinationIndex + length))
  else none

theorem copyMemory_eq {destination source : Bytes} {i j n : Nat} (hsource : i + n ≤ source.length)
    (hdestination : j + n ≤ destination.length) :
    copyMemory destination j source i n =
      some (destination.take j ++ (source.drop i).take n ++ destination.drop (j + n)) :=
  if_pos ⟨hsource, hdestination⟩

namespace SlideBuffer

/-- The buffer after `Init`, where `new char[capacity_]` has these bytes in it. -/
def allocated (pData : Bytes) : SlideBuffer :=
  { data := pData, size := 0, capacity := pData.length }

/-- What is handed to `Enqueue`. -/
structure Source where
  in_ : Bytes
  size_ : UInt32
  size_le : size_.toNat ≤ in_.length
  size_le_maxSockbuf : size_.toNat ≤ maxSockbuf

/-- What is handed to `Dequeue`. -/
structure Target where
  out_ : Bytes
  maxSize_ : UInt32
  maxSize_le : maxSize_.toNat ≤ out_.length

namespace Checked

def enqueue (b : SlideBuffer) (in_ : Option Bytes) (size_ : Nat) : Option (SlideBuffer × Bool) :=
  match in_ with
  | none => some (b, false)
  | some src =>
    if (size_ + b.size) % 2 ^ 32 > b.capacity then some (b, false)
    else do
      let data ← copyMemory b.data b.size src 0 size_
      return ({ b with data := data, size := (b.size + size_) % 2 ^ 32 }, true)

/-- The last component is the target after the call. -/
def dequeue (b : SlideBuffer) (out_ : Bytes) (maxSize_ : Nat) :
    Option (SlideBuffer × Nat × Bytes) :=
  if b.size = 0 then some (b, 0, out_)
  else do
    let deqSize := if b.size > maxSize_ then maxSize_ else b.size
    let out ← copyMemory out_ 0 b.data 0 deqSize
    let data ← copyMemory b.data 0 b.data deqSize (b.size - deqSize)
    return ({ b with data := data, size := b.size - deqSize }, deqSize, out)

def pop (b : SlideBuffer) (size_ : Nat) : Option (SlideBuffer × Bool) :=
  if size_ > b.size then some (b, false)
  else do
    let data ← copyMemory b.data 0 b.data size_ (b.size - size_)
    return ({ b with data := data, size := b.size - size_ }, true)

def peek (b : SlideBuffer) : Option Nat :=
  if b.size < 5 ∨ b.capacity < 5 then some 0
  else do
    let ret ← copyMemory [0, 0, 0, 0] 0 b.data 0 4
    return leDecode ret

end Checked

/-- A call, with its arguments; `none` is a null pointer. -/
inductive Op where
  | enqueue (source : Option Source)
  | dequeue (target : Target)
  | pop (size_ : UInt32)
  | clear
  | peek

inductive Answer where
  | enqueued (ret : Bool)
  | dequeued (ret : Nat) (out_ : Bytes)
  | popped (ret : Bool)
  | cleared
  | peeked (ret : Nat)
  deriving DecidableEq

/-- The calls that can fail return false then. -/
def Answer.Failed : Answer → Prop
  | .enqueued ret => ret = false
  | .popped ret => ret = false
  | _ => False

def step (b : SlideBuffer) : Op → Option (SlideBuffer × Answer)
  | .enqueue none => (Checked.enqueue b none 0).map fun r => (r.1, .enqueued r.2)
  | .enqueue (some source) =>
    (Checked.enqueue b (some source.in_) source.size_.toNat).map fun r => (r.1, .enqueued r.2)
  | .dequeue target =>
    (Checked.dequeue b target.out_ target.maxSize_.toNat).map fun r =>
      (r.1, .dequeued r.2.1 r.2.2)
  | .pop size_ => (Checked.pop b size_.toNat).map fun r => (r.1, .popped r.2)
  | .clear => some (b.clear, .cleared)
  | .peek => (Checked.peek b).map fun ret => (b, .peeked ret)

/-- The calls on a queue of bytes. -/
def spec {cap : Nat} (q : BoundedFifo UInt8 cap) : Op → BoundedFifo UInt8 cap × Answer
  | .enqueue none => (q, .enqueued false)
  | .enqueue (some source) =>
    let r := q.enqueue (source.in_.take source.size_.toNat)
    (r.1, .enqueued r.2)
  | .dequeue target =>
    let r := q.dequeue target.maxSize_.toNat
    (r.1, .dequeued r.2.length (r.2 ++ target.out_.drop r.2.length))
  | .pop size_ =>
    let r := q.pop size_.toNat
    (r.1, .popped r.2)
  | .clear => (.empty, .cleared)
  | .peek => (q, .peeked (if 5 ≤ q.items.length then leDecode (q.items.take 4) else 0))

/-- The buffer holds the items of the queue. -/
structure Holds {cap : Nat} (b : SlideBuffer) (q : BoundedFifo UInt8 cap) : Prop where
  wf : b.Wf
  capacity_eq : b.capacity = cap
  bytes_eq : b.bytes = q.items

variable {b b' : SlideBuffer} {n : Nat}

/-! ## No copy leaves its arrays -/

/-- A range of the array in use is copied to the front. -/
theorem copyMemory_front (h : b.Wf) (hn : n ≤ b.size) :
    copyMemory b.data 0 b.data n (b.size - n) =
      some ((b.data.drop n).take (b.size - n) ++ b.data.drop (b.size - n)) := by
  have hdata := h.data_length
  have hsize := h.size_le
  rw [copyMemory_eq (by omega) (by omega), List.take_zero, List.nil_append, Nat.zero_add]

namespace Checked

/-- The sum of the sizes does not wrap, so that what is tested is what is copied. -/
theorem enqueue_eq (h : b.Wf) (hcap : b.capacity ≤ 2 ^ 32 - 1 - maxSockbuf) (source : Source) :
    enqueue b (some source.in_) source.size_.toNat =
      some (b.enqueue (some source.in_) source.size_.toNat) := by
  have hdata := h.data_length
  have hsize := h.size_le
  have hread := source.size_le
  have hmax := source.size_le_maxSockbuf
  simp only [maxSockbuf] at hcap hmax
  have hmod : (source.size_.toNat + b.size) % 2 ^ 32 = source.size_.toNat + b.size :=
    Nat.mod_eq_of_lt (by omega)
  unfold enqueue SlideBuffer.enqueue
  simp only [hmod]
  split
  · rfl
  · next hfit =>
    rw [copyMemory_eq (by omega) (by omega)]
    rfl

theorem pop_eq (h : b.Wf) (n : Nat) : pop b n = some (b.pop n) := by
  unfold pop SlideBuffer.pop
  split
  · rfl
  · next hn =>
    rw [copyMemory_front h (Nat.le_of_not_lt hn)]
    rfl

/-- `Dequeue` is a `Pop` of what there is, that writes what it removes to the target. -/
theorem dequeue_eq (h : b.Wf) {out_ : Bytes} (hn : n ≤ out_.length) :
    ∃ deqSize, deqSize = min n b.size ∧
      dequeue b out_ n =
        some ((b.pop deqSize).1, deqSize, b.bytes.take deqSize ++ out_.drop deqSize) := by
  have hdata := h.data_length
  have hsize := h.size_le
  refine ⟨_, rfl, ?_⟩
  unfold dequeue
  by_cases hzero : b.size = 0
  · -- nothing is there, and a `Pop` of nothing leaves the buffer as it is
    rw [if_pos hzero, hzero, Nat.min_zero, SlideBuffer.pop, if_neg (Nat.not_lt_zero _)]
    simp only [List.drop_zero, List.take_append_drop, List.take_zero, List.nil_append,
      Nat.sub_zero]
  · have hdeq : (if b.size > n then n else b.size) = min n b.size := by
      split <;> omega
    have hle : min n b.size ≤ b.size := Nat.min_le_right n b.size
    have htake : b.bytes.take (min n b.size) = b.data.take (min n b.size) := by
      rw [bytes, List.take_take, Nat.min_eq_left hle]
    rw [if_neg hzero, SlideBuffer.pop, if_neg (Nat.not_lt.mpr hle), htake]
    simp only [hdeq]
    rw [copyMemory_eq (by omega) (by omega), copyMemory_front h hle]
    simp only [Option.bind_eq_bind, Option.bind_some, Option.pure_def, List.take_zero,
      List.drop_zero, List.nil_append, Nat.zero_add]

theorem peek_eq (h : b.Wf) : peek b = some b.peek := by
  have hdata := h.data_length
  have hsize := h.size_le
  unfold peek SlideBuffer.peek
  split
  · rfl
  · next hfive =>
    rw [copyMemory_eq (by omega) (by decide)]
    simp only [Option.bind_eq_bind, Option.bind_some, Option.pure_def, List.take_zero,
      List.nil_append, readU32]
    rw [show List.drop (0 + 4) [(0 : UInt8), 0, 0, 0] = [] from rfl, List.append_nil]

/-- Where the test fails, nothing has been written. -/
theorem enqueue_false {in_ : Option Bytes} (h : enqueue b in_ n = some (b', false)) : b' = b := by
  cases in_ with
  | none => exact (Prod.mk.inj (Option.some.inj h)).1.symm
  | some src =>
    simp only [enqueue] at h
    split at h
    · exact (Prod.mk.inj (Option.some.inj h)).1.symm
    · obtain ⟨data, -, hdone⟩ := Option.bind_eq_some_iff.mp h
      cases (Prod.mk.inj (Option.some.inj hdone)).2

theorem pop_false (h : pop b n = some (b', false)) : b' = b := by
  simp only [pop] at h
  split at h
  · exact (Prod.mk.inj (Option.some.inj h)).1.symm
  · obtain ⟨data, -, hdone⟩ := Option.bind_eq_some_iff.mp h
    cases (Prod.mk.inj (Option.some.inj hdone)).2

end Checked

/-! ## The queue -/

variable {cap : Nat} {q : BoundedFifo UInt8 cap}

theorem Holds.size_eq (h : b.Holds q) : b.size = q.items.length := by
  rw [← h.bytes_eq, h.wf.bytes_length]

theorem holds_allocated (pData : Bytes) :
    (allocated pData).Holds (BoundedFifo.empty : BoundedFifo UInt8 pData.length) :=
  ⟨⟨rfl, Nat.zero_le _⟩, rfl, List.take_zero⟩

theorem Holds.clear (h : b.Holds q) : b.clear.Holds (BoundedFifo.empty : BoundedFifo UInt8 cap) :=
  ⟨h.wf.clear, h.capacity_eq, List.take_zero⟩

theorem Holds.pop (h : b.Holds q) (hn : n ≤ b.size) : (b.pop n).1.Holds (q.drop n) := by
  obtain ⟨-, hbytes, hwf⟩ := pop_spec h.wf hn
  refine ⟨hwf, (capacity_pop b n).trans h.capacity_eq, ?_⟩
  rw [hbytes, h.bytes_eq]
  rfl

/-- Only the bytes that are copied matter. -/
theorem enqueue_take {src : Bytes} (hn : n ≤ src.length) :
    b.enqueue (some src) n = b.enqueue (some (src.take n)) (src.take n).length := by
  rw [List.length_take_of_le hn, enqueue, enqueue]
  simp only [List.take_take, Nat.min_self]

theorem Holds.enqueue (h : b.Holds q) (hcap : cap ≤ 2 ^ 32 - 1 - maxSockbuf) (source : Source) :
    ∃ b', step b (.enqueue (some source)) =
        some (b', (spec q (.enqueue (some source))).2) ∧
      b'.Holds (spec q (.enqueue (some source))).1 := by
  have hroom := h.capacity_eq
  have hsize := h.size_eq
  have hread := source.size_le
  have hmax := source.size_le_maxSockbuf
  have hlen : (source.in_.take source.size_.toNat).length = source.size_.toNat :=
    List.length_take_of_le hread
  simp only [step, spec, Checked.enqueue_eq h.wf (hroom ▸ hcap), Option.map_some,
    enqueue_take hread]
  simp only [maxSockbuf] at hcap hmax
  by_cases hfit : q.items.length + (source.in_.take source.size_.toNat).length ≤ cap
  · obtain ⟨hret, hbytes, hwf⟩ := enqueue_fits h.wf _ (by omega)
      (show b.size + (source.in_.take source.size_.toNat).length ≤ b.capacity by omega)
    obtain ⟨hitems, hret'⟩ := BoundedFifo.enqueue_fits hfit
    rw [hret, hret']
    refine ⟨_, rfl, hwf, (capacity_enqueue ..).trans hroom, ?_⟩
    rw [hbytes, hitems, h.bytes_eq]
  · have hsize_le := h.wf.size_le
    rw [enqueue_full _ (by omega) (by omega), BoundedFifo.enqueue_full hfit]
    exact ⟨b, rfl, h⟩

theorem Holds.dequeue (h : b.Holds q) (target : Target) :
    ∃ b', step b (.dequeue target) = some (b', (spec q (.dequeue target)).2) ∧
      b'.Holds (spec q (.dequeue target)).1 := by
  obtain ⟨deqSize, hmin, hdequeue⟩ := Checked.dequeue_eq h.wf target.maxSize_le
  rw [h.size_eq] at hmin
  have htake : q.items.take target.maxSize_.toNat = q.items.take deqSize := by
    rw [hmin]
    exact List.take_eq_take_min
  have hdrop : q.drop target.maxSize_.toNat = q.drop deqSize := by
    have hitems : q.items.drop target.maxSize_.toNat = q.items.drop deqSize :=
      List.drop_eq_drop_iff.mpr (by omega)
    simp only [BoundedFifo.drop, hitems]
  have hlen : (q.items.take deqSize).length = deqSize :=
    List.length_take_of_le (by omega)
  have hheld : deqSize ≤ b.size := by
    rw [h.size_eq]
    omega
  simp only [step, spec, BoundedFifo.dequeue, hdequeue, Option.map_some, htake, hdrop, hlen,
    h.bytes_eq]
  exact ⟨_, rfl, h.pop hheld⟩

theorem Holds.pop_step (h : b.Holds q) (size_ : UInt32) :
    ∃ b', step b (.pop size_) = some (b', (spec q (.pop size_)).2) ∧
      b'.Holds (spec q (.pop size_)).1 := by
  simp only [step, spec, Checked.pop_eq h.wf, Option.map_some]
  by_cases hn : size_.toNat ≤ b.size
  · rw [(pop_spec h.wf hn).1, BoundedFifo.pop_held (h.size_eq ▸ hn)]
    exact ⟨_, rfl, h.pop hn⟩
  · rw [BoundedFifo.pop_short (h.size_eq ▸ hn), SlideBuffer.pop, if_pos (Nat.lt_of_not_le hn)]
    exact ⟨b, rfl, h⟩

theorem Holds.peek (h : b.Holds q) :
    step b .peek = some (b, (spec q .peek).2) := by
  simp only [step, spec, Checked.peek_eq h.wf, h.wf.peek, h.bytes_eq, Option.map_some]
  by_cases hfive : 5 ≤ q.items.length
  · rw [if_pos hfive, if_neg (Nat.not_lt.mpr hfive)]
    rfl
  · rw [if_neg hfive, if_pos (Nat.lt_of_not_le hfive)]

/-- The buffer simulates a queue with room for as many bytes as its array has. -/
theorem step_simulates (hcap : cap ≤ 2 ^ 32 - 1 - maxSockbuf) :
    Simulates step (@spec cap) Holds := by
  intro b q op h
  cases op with
  | enqueue source =>
    cases source with
    | none => exact ⟨b, rfl, h⟩
    | some source => exact h.enqueue hcap source
  | dequeue target => exact h.dequeue target
  | pop size_ => exact h.pop_step size_
  | clear => exact ⟨b.clear, rfl, h.clear⟩
  | peek => exact ⟨b, h.peek, h⟩

/-- What returns false leaves the buffer as it was. -/
theorem step_failed {op : Op} {ans : Answer} (hstep : step b op = some (b', ans))
    (hans : ans.Failed) : b' = b := by
  cases op with
  | enqueue source =>
    cases source with
    | none => exact (Prod.mk.inj (Option.some.inj hstep)).1.symm
    | some source =>
      obtain ⟨⟨b₁, ret⟩, hcall, hret⟩ := Option.map_eq_some_iff.mp hstep
      obtain ⟨rfl, rfl⟩ := Prod.mk.inj hret
      exact Checked.enqueue_false (hcall.trans (congrArg (fun r => some (b₁, r)) hans))
  | pop size_ =>
    obtain ⟨⟨b₁, ret⟩, hcall, hret⟩ := Option.map_eq_some_iff.mp hstep
    obtain ⟨rfl, rfl⟩ := Prod.mk.inj hret
    exact Checked.pop_false (hcall.trans (congrArg (fun r => some (b₁, r)) hans))
  | dequeue target =>
    obtain ⟨r, -, hret⟩ := Option.map_eq_some_iff.mp hstep
    obtain ⟨-, rfl⟩ := Prod.mk.inj hret
    exact absurd hans id
  | clear =>
    obtain ⟨-, rfl⟩ := Prod.mk.inj (Option.some.inj hstep)
    exact absurd hans id
  | peek =>
    obtain ⟨r, -, hret⟩ := Option.map_eq_some_iff.mp hstep
    obtain ⟨-, rfl⟩ := Prod.mk.inj hret
    exact absurd hans id

/-- Every sequence of calls on a new buffer goes through with no copy out of range, and is
answered as the queue answers it; the buffer then holds what the queue holds, and a further
call that returns false changes nothing. -/
theorem receive_buffer_fifo {pData : Bytes} (hcap : pData.length ≤ 2 ^ 32 - 1 - maxSockbuf)
    (ops : List Op) :
    ∃ b, answers step (allocated pData) ops =
        some (b, (responses spec (BoundedFifo.empty : BoundedFifo UInt8 pData.length) ops).2) ∧
      b.bytes =
        (responses spec (BoundedFifo.empty : BoundedFifo UInt8 pData.length) ops).1.items ∧
      b.size = b.bytes.length ∧ b.size ≤ b.capacity ∧ b.capacity = pData.length ∧
      ∀ op b' ans, step b op = some (b', ans) → ans.Failed → b' = b := by
  obtain ⟨b, hans, hholds⟩ := (step_simulates hcap).answers (holds_allocated pData) ops
  exact ⟨b, hans, hholds.bytes_eq, hholds.wf.bytes_length.symm, hholds.wf.size_le,
    hholds.capacity_eq, fun op b' ans hstep hfailed => step_failed hstep hfailed⟩

/-- Calls on a buffer of six bytes: three bytes, four that do not fit, three that do. -/
def sixBytes : List Op :=
  [.enqueue (some ⟨[1, 0, 0], 3, by decide, by decide⟩), .peek,
    .enqueue (some ⟨[7, 7, 7, 7], 4, by decide, by decide⟩),
    .enqueue (some ⟨[0, 2, 3], 3, by decide, by decide⟩), .peek, .pop 7,
    .dequeue ⟨[9, 9, 9], 2, by decide⟩, .pop 1]

theorem receive_buffer_fifo_six :
    ∃ b, answers step (allocated [5, 5, 5, 5, 5, 5]) sixBytes =
        some (b, [.enqueued true, .peeked 0, .enqueued false, .enqueued true, .peeked 1,
          .popped false, .dequeued 2 [1, 0, 9], .popped true]) ∧
      b.bytes = [0, 2, 3] := by
  have hcap : ([5, 5, 5, 5, 5, 5] : Bytes).length ≤ 2 ^ 32 - 1 - maxSockbuf := by decide
  obtain ⟨b, hans, hbytes, -⟩ := receive_buffer_fifo hcap sixBytes
  exact ⟨b, hans, hbytes⟩

end SlideBuffer

end RacingGameServer
