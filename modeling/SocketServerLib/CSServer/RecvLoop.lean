import SocketServerLib.CSServer.SlideBuffer

/-
  `RecvLoop`: `RecvAsync` stores what `ReceiveAsync` has brought, and the inner loop gives
  the messages to `OnReceive` and pops them.

  The segment given to `OnReceive` is a part of the live array. `onReceive` is a handler
  with a state of its own that may leave other bytes in the segment; `given` are the
  segments as it got them and `enqueued` the answers of `Enqueue`, both ghosts.

  What is proved:
    1. `innerLoop_frames` — the inner loop gives out the frames of the buffer and keeps the
       rest, whatever the handler does to its segment.
    2. `recvLoop_exact` — over a stream of frames the segments are the complete frames, the
       buffer holds the rest, and every `Enqueue` has succeeded: a frame and what one
       `ReceiveAsync` can bring fit into the buffer together.

  What is assumed: `m_IsRun` is true all the time, and `Array.Copy` copies its source as it was
  before the call.
-/
namespace CSServer
open RacingGameServer PrefixFraming ChunkedFraming SlideBuffer

def maxSegmentSize : Nat := 1024
def sendBufferSize : Nat := maxSegmentSize * 4
def recvBufferSize : Nat := sendBufferSize * 4

/-- What `n` bytes of a segment at the front read after something was written to it. -/
def SlideBuffer.writeSegment (b : SlideBuffer) (n : Nat) (seg : Bytes) : SlideBuffer :=
  { b with buffer := seg.take n ++ b.buffer.drop (seg.take n).length }

/-- The part of `ClientContext` that receives. -/
structure RecvContext where
  m_buffer : Bytes
  recvBuffer : SlideBuffer

namespace RecvContext

def new : RecvContext :=
  { m_buffer := List.replicate maxSegmentSize 0, recvBuffer := .new recvBufferSize }

/-- `ReceiveAsync` has put the bytes of `recved` at the front of `m_buffer`; `none` is an
exception. The last component is what `Enqueue` returned, if it was called. -/
def recvAsync (c : RecvContext) (recved : Option Bytes) : RecvContext × Bool × List Bool :=
  match recved with
  | none => (c, false, [])
  | some msg =>
    if msg.length = 0 then (c, false, [])
    else
      let m_buffer := msg ++ c.m_buffer.drop msg.length
      ({ m_buffer := m_buffer, recvBuffer := (c.recvBuffer.enqueue m_buffer msg.length).1 }, true,
        [(c.recvBuffer.enqueue m_buffer msg.length).2])

end RecvContext

/-- `RecvLoop` of one client, with the state of the handler. -/
structure RecvState (η : Type*) where
  context : RecvContext
  handler : η
  given : List Bytes
  enqueued : List Bool
  left : Bool

namespace RecvState

variable {η : Type*} {onReceive : η → Bytes → η × Bytes} {s : RecvState η} {fs cs : List Bytes}

def init (handler : η) : RecvState η :=
  { context := .new, handler := handler, given := [], enqueued := [], left := false }

/-- `OnReceive` with a segment of `n` bytes, and `PopMsg`. -/
def turn (onReceive : η → Bytes → η × Bytes) (s : RecvState η) (n : Nat) : RecvState η :=
  let view := s.context.recvBuffer.segment n
  let answer := onReceive s.handler view
  { s with
    context :=
      { s.context with recvBuffer := ((s.context.recvBuffer.writeSegment n answer.2).pop n).1 }
    handler := answer.1
    given := s.given ++ [view] }

def innerLoop (onReceive : η → Bytes → η × Bytes) :
    (fuel : Nat) → RecvState η → Option (RecvState η)
  | 0, _ => none
  | fuel + 1, s =>
    match s.context.recvBuffer.getMsg with
    | none => some s
    | some n => innerLoop onReceive fuel (s.turn onReceive n)

/-- One turn of the outer loop. -/
def iteration (onReceive : η → Bytes → η × Bytes) (s : RecvState η) (recved : Option Bytes) :
    Option (RecvState η) :=
  if s.left = true then some s
  else
    let r := s.context.recvAsync recved
    if r.2.1 = false then some { s with context := r.1, left := true }
    else
      innerLoop onReceive (r.1.recvBuffer.size + 1)
        { s with context := r.1, enqueued := s.enqueued ++ r.2.2 }

/-- What has been given out, and what the receive buffer holds. -/
def received (s : RecvState η) : Received UInt8 :=
  { delivered := s.given, content := s.context.recvBuffer.bytes }

/-- The loop goes on, and no byte has been dropped. -/
structure Whole (s : RecvState η) : Prop where
  left : s.left = false
  wf : s.context.recvBuffer.Wf
  cap : s.context.recvBuffer.cap = recvBufferSize
  enqueued : ∀ b ∈ s.enqueued, b = true

/-- A frame with its length field right, one `ReceiveAsync` shorter than the buffer. -/
structure IsFrame (f : Bytes) : Prop where
  length : readU32 f 0 = f.length
  ge : 4 ≤ f.length
  le : f.length ≤ recvBufferSize - maxSegmentSize

theorem IsFrame.delimits {f : Bytes} (h : IsFrame f) : msgFraming.Delimits f := by
  have hge := h.ge
  exact lengthField_delimits h.length hge (by omega)

theorem whole_init (handler : η) : (init handler).Whole := by
  refine ⟨rfl, wf_new recvBufferSize, rfl, ?_⟩
  intro b hb
  exact absurd hb List.not_mem_nil

/-! ## The inner loop -/

/-- What is written to a segment does not reach the bytes behind it. -/
theorem writeSegment_spec {b : SlideBuffer} (h : b.Wf) {n : Nat} (hn : n ≤ b.size) (seg : Bytes) :
    (b.writeSegment n seg).Wf ∧ (b.writeSegment n seg).bytes.drop n = b.bytes.drop n := by
  have hbuffer := h.buffer_length
  have hsize := h.size_le
  have hseg : (seg.take n).length ≤ n := List.length_take_le n seg
  constructor
  · refine ⟨?_, hsize⟩
    show (seg.take n ++ b.buffer.drop (seg.take n).length).length = b.cap
    rw [List.length_append, List.length_drop]
    omega
  · show ((seg.take n ++ b.buffer.drop (seg.take n).length).take b.size).drop n =
      (b.buffer.take b.size).drop n
    rw [List.drop_take, List.drop_take, List.drop_append, List.drop_eq_nil_of_le hseg,
      List.nil_append, List.drop_drop]
    congr 2
    omega

theorem Whole.getMsg (h : s.Whole) :
    s.context.recvBuffer.getMsg = msgFraming.next s.context.recvBuffer.bytes :=
  h.wf.getMsg

/-- A turn takes the frame at the front, whatever the handler does to its segment. -/
theorem Whole.turn (h : s.Whole) {n : Nat}
    (hn : msgFraming.next s.context.recvBuffer.bytes = some n) :
    (s.turn onReceive n).Whole ∧
      (s.turn onReceive n).context.recvBuffer.bytes = s.context.recvBuffer.bytes.drop n ∧
      (s.turn onReceive n).given = s.given ++ [s.context.recvBuffer.bytes.take n] := by
  have hle := msgFraming.le hn
  rw [h.wf.bytes_length] at hle
  obtain ⟨hwf, hdrop⟩ := writeSegment_spec h.wf hle (onReceive s.handler
    (s.context.recvBuffer.segment n)).2
  obtain ⟨-, hbytes, hwf'⟩ := pop_spec (n := n) hwf hle
  refine ⟨⟨h.left, hwf', ?_, h.enqueued⟩, hbytes.trans hdrop, ?_⟩
  · rw [RecvState.turn, pop_cap]
    exact h.cap
  · rw [RecvState.turn, segment_eq hle]

/-- The inner loop gives out the complete frames and ends over the rest. -/
theorem innerLoop_frames (h : s.Whole) {fuel : Nat}
    (hfuel : s.context.recvBuffer.bytes.length < fuel) :
    ∃ s', innerLoop onReceive fuel s = some s' ∧ s'.Whole ∧
      s'.given = s.given ++ msgFraming.frames s.context.recvBuffer.bytes ∧
      s'.context.recvBuffer.bytes = msgFraming.rest s.context.recvBuffer.bytes := by
  induction fuel generalizing s with
  | zero => omega
  | succ fuel ih =>
    cases hn : msgFraming.next s.context.recvBuffer.bytes with
    | none =>
      refine ⟨s, ?_, h, ?_, (rest_of_none hn).symm⟩
      · simp only [innerLoop, h.getMsg, hn]
      · rw [frames_of_none hn, List.append_nil]
    | some n =>
      have hpos := msgFraming.pos hn
      have hle := msgFraming.le hn
      obtain ⟨hwhole, hbytes, hgiven⟩ : (s.turn onReceive n).Whole ∧ _ ∧ _ := h.turn hn
      have hshort : (s.turn onReceive n).context.recvBuffer.bytes.length < fuel := by
        rw [hbytes, List.length_drop]
        omega
      obtain ⟨s', hloop, hwhole', hgiven', hrest⟩ := ih hwhole hshort
      refine ⟨s', ?_, hwhole', ?_, ?_⟩
      · simp only [innerLoop, h.getMsg, hn]
        exact hloop
      · rw [hgiven', hgiven, hbytes, frames_of_some hn, List.append_assoc, List.singleton_append]
      · rw [hrest, hbytes, rest_of_some hn]

/-! ## Every stream -/

/-- What `RecvAsync` stores of a chunk that fits. -/
theorem recvAsync_fits {c : RecvContext} (h : c.recvBuffer.Wf) {msg : Bytes}
    (hpos : 0 < msg.length) (hfit : c.recvBuffer.bytes.length + msg.length ≤ c.recvBuffer.cap) :
    (c.recvAsync (some msg)).2 = (true, [true]) ∧
      (c.recvAsync (some msg)).1.recvBuffer.Wf ∧
      (c.recvAsync (some msg)).1.recvBuffer.cap = c.recvBuffer.cap ∧
      (c.recvAsync (some msg)).1.recvBuffer.bytes = c.recvBuffer.bytes ++ msg := by
  rw [h.bytes_length] at hfit
  have hlen : msg.length ≤ (msg ++ c.m_buffer.drop msg.length).length := by
    rw [List.length_append]
    omega
  obtain ⟨hok, hbytes, hwf⟩ := enqueue_fits h hlen hfit
  rw [List.take_left] at hbytes
  have hne : ¬ msg.length = 0 := by omega
  simp only [RecvContext.recvAsync, if_neg hne]
  exact ⟨by rw [hok], hwf, enqueue_cap .., hbytes⟩

/-- What fits is stored and framed together with what was left. -/
theorem iteration_fits (h : s.Whole) {msg : Bytes} (hpos : 0 < msg.length)
    (hfit : s.context.recvBuffer.bytes.length + msg.length ≤ recvBufferSize) :
    ∃ s', s.iteration onReceive (some msg) = some s' ∧ s'.Whole ∧
      s'.given = s.given ++ msgFraming.frames (s.context.recvBuffer.bytes ++ msg) ∧
      s'.context.recvBuffer.bytes = msgFraming.rest (s.context.recvBuffer.bytes ++ msg) := by
  rw [← h.cap] at hfit
  obtain ⟨hret, hwf, hcap, hbytes⟩ := recvAsync_fits h.wf hpos hfit
  have hleft : ¬ s.left = true := by rw [h.left]; exact Bool.false_ne_true
  rw [← hbytes, iteration, if_neg hleft]
  simp only [hret]
  refine innerLoop_frames (s := { s with
      context := (s.context.recvAsync (some msg)).1, enqueued := s.enqueued ++ [true] })
    ⟨h.left, hwf, hcap.trans h.cap, ?_⟩ ?_
  · intro b hb
    rcases List.mem_append.mp hb with hb | hb
    · exact h.enqueued b hb
    · exact List.mem_singleton.mp hb
  · show (s.context.recvAsync (some msg)).1.recvBuffer.bytes.length < _
    rw [hwf.bytes_length]
    omega

/-- What does not fit is dropped. -/
theorem iteration_full (h : s.Whole) {msg : Bytes} (hpos : 0 < msg.length)
    (hnext : msgFraming.next s.context.recvBuffer.bytes = none)
    (hfull : recvBufferSize < s.context.recvBuffer.bytes.length + msg.length) :
    ∃ s', s.iteration onReceive (some msg) = some s' ∧ s'.received = s.received := by
  rw [h.wf.bytes_length, ← h.cap] at hfull
  have hempty : ¬ msg.length = 0 := by omega
  have hleft : ¬ s.left = true := by rw [h.left]; exact Bool.false_ne_true
  rw [iteration, if_neg hleft]
  simp only [RecvContext.recvAsync, if_neg hempty, enqueue_full hfull hpos]
  refine ⟨{ s with
      context := { s.context with m_buffer := msg ++ s.context.m_buffer.drop msg.length }
      enqueued := s.enqueued ++ [false] }, ?_, rfl⟩
  simp only [Bool.true_eq_false, if_false, innerLoop, h.getMsg, hnext]

/-- An iteration is one step of a receiver with room for `RECV_BUFFER_SIZE` bytes. -/
theorem iteration_implements (onReceive : η → Bytes → η × Bytes) :
    Implements msgFraming recvBufferSize maxSegmentSize fs
      (fun _ s msg => iteration onReceive s (some msg)) received Whole where
  fits h hpos _ hfit _ _ := iteration_fits h hpos hfit
  full h hpos _ hnext hfull := iteration_full h hpos hnext hfull

/-- At every point of a stream of frames, however `ReceiveAsync` cuts it and whatever the handler
does: the segments given out are the frames that are complete, the buffer holds what has arrived
of the next one, and no byte has been dropped. -/
theorem recvLoop_exact (onReceive : η → Bytes → η × Bytes) (handler : η)
    (hfs : ∀ f ∈ fs, IsFrame f) (hcut : cs.flatten = fs.flatten)
    (hlen : ∀ c ∈ cs, 0 < c.length ∧ c.length ≤ maxSegmentSize) (pre suf : List Bytes)
    (hcs : pre ++ suf = cs) :
    ∃ s, receiveAll (fun _ s msg => iteration onReceive s (some msg)) 0 (init handler) pre =
        some s ∧
      s.given = completed fs pre.flatten.length ∧
      s.given.flatten ++ s.context.recvBuffer.bytes = pre.flatten ∧
      s.left = false ∧ ∀ b ∈ s.enqueued, b = true := by
  have hdelimits : ∀ f ∈ fs, msgFraming.Delimits f := fun f hf => (hfs f hf).delimits
  have hcut' : (pre ++ suf).flatten = fs.flatten := by rw [hcs, hcut]
  have hfits : Fits recvBufferSize fs cs :=
    fits_of_short hdelimits rfl (fun f hf => (hfs f hf).le) (by decide) (by decide) hcut
      fun c hc => (hlen c hc).2
  obtain ⟨s, hs, hwhole, hin⟩ := (iteration_implements onReceive).inStep hdelimits rfl
    (whole_init handler) rfl pre suf hcut'
    (fun c hc => hlen c (by rw [← hcs]; exact List.mem_append_left _ hc))
    fun p c q hp => hfits p c (q ++ suf) (by rw [← hcs, ← hp]; simp)
  refine ⟨s, hs, ?_, hin.accounts, hwhole.left, hwhole.enqueued⟩
  exact hin.delivered.trans (frames_of_cut hdelimits rfl pre suf hcut').1

/-- Two messages of four and six bytes. -/
def twoFrames : List Bytes := [[4, 0, 0, 0], [6, 0, 0, 0, 65, 66]]

/-- A handler that counts its messages and clears them. -/
def clearing (n : Nat) (seg : Bytes) : Nat × Bytes := (n + 1, seg.map fun _ => 0)

theorem recvLoop_exact_two : ∃ s,
    receiveAll (fun _ s msg => iteration clearing s (some msg)) 0 (init 0)
      [[4, 0], [0, 0, 6, 0, 0], [0, 65]] = some s ∧ s.given = completed twoFrames 9 := by
  have hfs : ∀ f ∈ twoFrames, IsFrame f := by
    intro f hf
    simp only [twoFrames, List.mem_cons, List.not_mem_nil, or_false] at hf
    rcases hf with rfl | rfl
    · exact ⟨by decide, by decide, by decide⟩
    · exact ⟨by decide, by decide, by decide⟩
  obtain ⟨s, hs, hgiven, -⟩ := recvLoop_exact clearing 0 hfs (by decide) (by decide)
    [[4, 0], [0, 0, 6, 0, 0], [0, 65]] [[66]] rfl
  exact ⟨s, hs, hgiven⟩

end RecvState

end CSServer
