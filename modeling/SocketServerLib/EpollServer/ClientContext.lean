import SocketServerLib.RacingGameServer.SlideBuffer

/-
  `ClientContext` of the epoll server: the send buffer of one connection, and what
  `SendMsg` and `ResumeSend` do with the answer of `send()`.

  `SlideBuffer` is the class of the IOCP server but for its logging. The answer of `send()` is
  `none` for -1, else how many of the offered bytes the kernel took. The two functions
  return the status and the bytes taken.

  What is proved:
    1. `sendMsg_fits`, `sendMsg_full` — what `SendMsg` does with a packet that fits into
       the buffer, and with one that does not.
    2. `callLaw_iff` — the status tells whether the packet was stored if and only if the
       packet fits exactly when `send()` does not fail.

  What is assumed: `send()` takes no more than it is offered, and `memcpy` within one buffer
  copies its source as it was before the call.
-/
namespace EpollServer
open RacingGameServer

def maxSendSlideBufferSize : Nat := 1024 * 32

def packetSize : Nat := 4096

inductive SendStatus where
  | WHOLE_SUCCESS | PARTIAL_SUCCESS | FAILED
  deriving DecidableEq, Repr

structure ClientContext where
  socket : Int
  sendBuffer : SlideBuffer

/-- What both functions do with the answer of `send()` for the whole buffer. -/
def sendBuffered (b : SlideBuffer) (nRet : Option Nat) : SlideBuffer × SendStatus × Bytes :=
  match nRet with
  | none => (b, .FAILED, [])
  | some n =>
    ((b.pop n).1, if (b.pop n).1.isEmpty = true then .WHOLE_SUCCESS else .PARTIAL_SUCCESS,
      b.bytes.take n)

/-- The bytes that `send()` takes of the buffer it is offered, by its answer. -/
def takenBytes (b : SlideBuffer) (nRet : Option Nat) : Bytes :=
  match nRet with
  | none => []
  | some n => b.bytes.take n

namespace ClientContext

/-- The buffer after `Init(fd_)`, which puts the socket in non-blocking mode. -/
def init (fd_ : Nat) : ClientContext :=
  { socket := fd_, sendBuffer := .init maxSendSlideBufferSize }

/-- The buffer that `SendMsg` offers to `send()`; whether `Enqueue` succeeded is not looked at. -/
def stored (c : ClientContext) (data : Bytes) : SlideBuffer :=
  (c.sendBuffer.enqueue (some data) data.length).1

/-- `pPacket_` is `none` for a null pointer, else the packet's bytes. -/
def sendMsg (c : ClientContext) (pPacket_ : Option Bytes) (nRet : Option Nat) :
    ClientContext × SendStatus × Bytes :=
  match pPacket_ with
  | none => (c, .FAILED, [])
  | some data =>
    if c.socket < 0 then (c, .FAILED, [])
    else
      ({ c with sendBuffer := (sendBuffered (c.stored data) nRet).1 },
        (sendBuffered (c.stored data) nRet).2)

def resumeSend (c : ClientContext) (nRet : Option Nat) : ClientContext × SendStatus × Bytes :=
  ({ c with sendBuffer := (sendBuffered c.sendBuffer nRet).1 }, (sendBuffered c.sendBuffer nRet).2)

/-- The kernel takes no more than it is offered. -/
def Offered (b : SlideBuffer) (nRet : Option Nat) : Prop :=
  match nRet with
  | none => True
  | some n => n ≤ b.size

instance (b : SlideBuffer) : DecidablePred (Offered b) := fun nRet => by
  unfold Offered
  split <;> infer_instance

/-- The packet fits into what is free of the buffer. -/
def Fits (c : ClientContext) (data : Bytes) : Prop :=
  c.sendBuffer.size + data.length ≤ c.sendBuffer.capacity

instance (c : ClientContext) (data : Bytes) : Decidable (c.Fits data) := by
  unfold Fits; infer_instance

/-- An open connection with its buffer. -/
structure Live (c : ClientContext) : Prop where
  socket : 0 ≤ c.socket
  wf : c.sendBuffer.Wf
  capacity : c.sendBuffer.capacity = maxSendSlideBufferSize

theorem live_init (fd_ : Nat) : (init fd_).Live :=
  ⟨Int.natCast_nonneg fd_, SlideBuffer.wf_init _, rfl⟩

variable {b : SlideBuffer} {c : ClientContext} {data : Bytes} {nRet : Option Nat} {n : Nat}

/-! ## What `send()` takes -/

theorem sendBuffered_capacity (b : SlideBuffer) (nRet : Option Nat) :
    (sendBuffered b nRet).1.capacity = b.capacity := by
  cases nRet with
  | none => rfl
  | some n => exact SlideBuffer.capacity_pop b n

theorem sendBuffered_wf (h : b.Wf) (nRet : Option Nat) : (sendBuffered b nRet).1.Wf := by
  cases nRet with
  | none => exact h
  | some n => exact h.pop n

theorem sendBuffered_taken (b : SlideBuffer) (nRet : Option Nat) :
    (sendBuffered b nRet).2.2 = takenBytes b nRet := by
  cases nRet <;> rfl

/-- What `SendMsg` reports as taken is what `send()` has taken of the buffer with the packet. -/
theorem sendMsg_taken (c : ClientContext) (data : Bytes) (nRet : Option Nat) :
    (c.sendMsg (some data) nRet).2.2 =
      if c.socket < 0 then [] else takenBytes (c.stored data) nRet := by
  simp only [sendMsg]
  split
  · rfl
  · exact sendBuffered_taken _ nRet

theorem resumeSend_taken (c : ClientContext) (nRet : Option Nat) :
    (c.resumeSend nRet).2.2 = takenBytes c.sendBuffer nRet :=
  sendBuffered_taken _ nRet

/-- What is taken and what is left make up what was offered. -/
theorem sendBuffered_bytes (h : b.Wf) (hn : Offered b nRet) :
    (sendBuffered b nRet).2.2 ++ (sendBuffered b nRet).1.bytes = b.bytes := by
  cases nRet with
  | none => rfl
  | some n =>
    obtain ⟨-, hbytes, -⟩ := SlideBuffer.pop_spec h hn
    show b.bytes.take n ++ (b.pop n).1.bytes = b.bytes
    rw [hbytes, List.take_append_drop]

theorem sendBuffered_failed (b : SlideBuffer) (nRet : Option Nat) :
    (sendBuffered b nRet).2.1 = .FAILED ↔ nRet = none := by
  cases nRet with
  | none => exact iff_of_true rfl rfl
  | some n =>
    refine iff_of_false ?_ nofun
    show ¬ (if (b.pop n).1.isEmpty = true then SendStatus.WHOLE_SUCCESS else .PARTIAL_SUCCESS) = _
    split <;> exact nofun

theorem sendBuffered_partial (h : b.Wf) (hn : n ≤ b.size) :
    (sendBuffered b (some n)).2.1 = .PARTIAL_SUCCESS ↔ n < b.size := by
  have hempty : (b.pop n).1.isEmpty = true ↔ n = b.size := by
    obtain ⟨-, hbytes, hwf⟩ := SlideBuffer.pop_spec h hn
    rw [hwf.isEmpty_iff, hbytes, List.drop_eq_nil_iff, h.bytes_length]
    omega
  show (if (b.pop n).1.isEmpty = true then SendStatus.WHOLE_SUCCESS else .PARTIAL_SUCCESS) = _ ↔ _
  split
  · next he =>
    refine iff_of_false nofun ?_
    have := hempty.mp he
    omega
  · next he =>
    refine iff_of_true rfl ?_
    have hne : n ≠ b.size := fun h => he (hempty.mpr h)
    omega

theorem sendBuffered_whole (h : (sendBuffered b nRet).2.1 = .WHOLE_SUCCESS) :
    (sendBuffered b nRet).1.size = 0 := by
  cases nRet with
  | none => cases h
  | some n =>
    have h' : (if (b.pop n).1.isEmpty = true then SendStatus.WHOLE_SUCCESS else .PARTIAL_SUCCESS) =
        .WHOLE_SUCCESS := h
    split at h'
    · next he => exact beq_iff_eq.mp he
    · cases h'

/-- Nothing is buffered behind `send()` that was not offered. -/
theorem sendBuffered_size_le (h : b.Wf) (hn : Offered b nRet) :
    (sendBuffered b nRet).1.size ≤ b.size := by
  have hlen := congrArg List.length (sendBuffered_bytes h hn)
  rw [List.length_append, h.bytes_length, (sendBuffered_wf h nRet).bytes_length] at hlen
  omega

/-! ## What is stored -/

theorem stored_capacity (c : ClientContext) (data : Bytes) :
    (c.stored data).capacity = c.sendBuffer.capacity :=
  SlideBuffer.capacity_enqueue ..

theorem stored_fits (h : c.Live) (hf : c.Fits data) :
    (c.stored data).bytes = c.sendBuffer.bytes ++ data ∧ (c.stored data).Wf := by
  have hcap : c.sendBuffer.capacity < 2 ^ 32 := by
    rw [h.capacity]
    decide
  exact (SlideBuffer.enqueue_fits h.wf data hcap hf).2

theorem enqueue_not_fits (h : c.Live) (hdata : data.length ≤ packetSize) (hf : ¬ c.Fits data) :
    c.sendBuffer.enqueue (some data) data.length = (c.sendBuffer, false) := by
  have hfull : c.sendBuffer.capacity < c.sendBuffer.size + data.length := Nat.lt_of_not_le hf
  have hsize : c.sendBuffer.size + data.length < 2 ^ 32 := by
    have hle := h.wf.size_le
    rw [h.capacity] at hle
    simp only [maxSendSlideBufferSize, packetSize] at hle hdata
    omega
  exact SlideBuffer.enqueue_full data hsize hfull

theorem stored_full (h : c.Live) (hdata : data.length ≤ packetSize) (hf : ¬ c.Fits data) :
    c.stored data = c.sendBuffer := by
  rw [stored, enqueue_not_fits h hdata hf]

/-- `Enqueue` says whether the packet fits. -/
theorem enqueue_iff (h : c.Live) (hdata : data.length ≤ packetSize) :
    (c.sendBuffer.enqueue (some data) data.length).2 = true ↔ c.Fits data := by
  by_cases hf : c.Fits data
  · have hcap : c.sendBuffer.capacity < 2 ^ 32 := by
      rw [h.capacity]
      decide
    exact iff_of_true (SlideBuffer.enqueue_fits h.wf data hcap hf).1 hf
  · rw [enqueue_not_fits h hdata hf]
    exact iff_of_false Bool.false_ne_true hf

theorem stored_wf (h : c.Live) (hdata : data.length ≤ packetSize) : (c.stored data).Wf := by
  by_cases hf : c.Fits data
  · exact (stored_fits h hf).2
  · rw [stored_full h hdata hf]
    exact h.wf

/-! ## `SendMsg` and `ResumeSend` -/

theorem sendMsg_eq (h : c.Live) (data : Bytes) (nRet : Option Nat) :
    c.sendMsg (some data) nRet =
      ({ c with sendBuffer := (sendBuffered (c.stored data) nRet).1 },
        (sendBuffered (c.stored data) nRet).2) := by
  rw [sendMsg]
  exact if_neg (Int.not_lt.mpr h.socket)

theorem Live.sendMsg (h : c.Live) (hdata : data.length ≤ packetSize) (nRet : Option Nat) :
    (c.sendMsg (some data) nRet).1.Live := by
  rw [sendMsg_eq h]
  refine ⟨h.socket, sendBuffered_wf (stored_wf h hdata) nRet, ?_⟩
  show (sendBuffered (c.stored data) nRet).1.capacity = _
  rw [sendBuffered_capacity, stored_capacity, h.capacity]

theorem Live.resumeSend (h : c.Live) (nRet : Option Nat) : (c.resumeSend nRet).1.Live := by
  refine ⟨h.socket, sendBuffered_wf h.wf nRet, ?_⟩
  show (sendBuffered c.sendBuffer nRet).1.capacity = _
  rw [sendBuffered_capacity, h.capacity]

/-- `ResumeSend` moves bytes from the buffer to the wire. -/
theorem resumeSend_bytes (h : c.Live) (hn : Offered c.sendBuffer nRet) :
    (c.resumeSend nRet).2.2 ++ (c.resumeSend nRet).1.sendBuffer.bytes = c.sendBuffer.bytes :=
  sendBuffered_bytes h.wf hn

/-- A packet that fits is stored, whatever `send()` answers. -/
theorem sendMsg_fits (h : c.Live) (hf : c.Fits data) (hn : Offered (c.stored data) nRet) :
    (c.sendMsg (some data) nRet).2.2 ++ (c.sendMsg (some data) nRet).1.sendBuffer.bytes =
      c.sendBuffer.bytes ++ data := by
  obtain ⟨hbytes, hwf⟩ := stored_fits h hf
  rw [sendMsg_eq h, ← hbytes]
  exact sendBuffered_bytes hwf hn

/-- A packet that does not fit is not, whatever `send()` answers. -/
theorem sendMsg_full (h : c.Live) (hdata : data.length ≤ packetSize) (hf : ¬ c.Fits data)
    (hn : Offered (c.stored data) nRet) :
    (c.sendMsg (some data) nRet).2.2 ++ (c.sendMsg (some data) nRet).1.sendBuffer.bytes =
      c.sendBuffer.bytes := by
  rw [stored_full h hdata hf] at hn
  rw [sendMsg_eq h, stored_full h hdata hf]
  exact sendBuffered_bytes h.wf hn

theorem sendMsg_failed (h : c.Live) :
    (c.sendMsg (some data) nRet).2.1 = .FAILED ↔ nRet = none := by
  rw [sendMsg_eq h]
  exact sendBuffered_failed _ _

/-- `FAILED` says that nothing was stored or sent, the other statuses that the packet was
appended once. -/
def CallLaw (c : ClientContext) (data : Bytes) (nRet : Option Nat) : Prop :=
  ((c.sendMsg (some data) nRet).2.1 = .FAILED ↔
      (c.sendMsg (some data) nRet).1.sendBuffer.bytes = c.sendBuffer.bytes ∧
        (c.sendMsg (some data) nRet).2.2 = []) ∧
    ((c.sendMsg (some data) nRet).2.1 ≠ .FAILED →
      (c.sendMsg (some data) nRet).2.2 ++ (c.sendMsg (some data) nRet).1.sendBuffer.bytes =
        c.sendBuffer.bytes ++ data)

theorem callLaw_iff (h : c.Live) (hdata : data.length ≤ packetSize) (hne : data ≠ [])
    (hn : Offered (c.stored data) nRet) : CallLaw c data nRet ↔ (c.Fits data ↔ nRet ≠ none) := by
  have hlonger : c.sendBuffer.bytes ≠ c.sendBuffer.bytes ++ data := by
    intro he
    exact hne (List.self_eq_append_right.mp he)
  have hfailed : (c.sendMsg (some data) nRet).2.1 = .FAILED ↔ nRet = none := sendMsg_failed h
  by_cases hf : c.Fits data
  · have hbytes := sendMsg_fits h hf hn
    -- the packet is stored, so the status is right if it is not `FAILED`
    have hchanged : ¬ ((c.sendMsg (some data) nRet).1.sendBuffer.bytes = c.sendBuffer.bytes ∧
        (c.sendMsg (some data) nRet).2.2 = []) := by
      intro ⟨hb, hs⟩
      rw [hb, hs] at hbytes
      exact hlonger hbytes
    constructor
    · intro hlaw
      exact iff_of_true hf fun he => hchanged (hlaw.1.mp (hfailed.mpr he))
    · intro hiff
      have hsome := hiff.mp hf
      exact ⟨iff_of_false (fun he => hsome (hfailed.mp he)) hchanged, fun _ => hbytes⟩
  · have hbytes := sendMsg_full h hdata hf hn
    constructor
    · intro hlaw
      refine iff_of_false hf fun hsome => ?_
      have := hlaw.2 fun he => hsome (hfailed.mp he)
      rw [hbytes] at this
      exact hlonger this
    · intro hiff
      have hnone : nRet = none := by
        by_contra hsome
        exact hf (hiff.mpr hsome)
      subst hnone
      have hstatus := hfailed.mpr rfl
      refine ⟨iff_of_true hstatus ?_, fun hno => absurd hstatus hno⟩
      rw [sendMsg_eq h, stored_full h hdata hf]
      exact ⟨rfl, rfl⟩

end ClientContext

end EpollServer
