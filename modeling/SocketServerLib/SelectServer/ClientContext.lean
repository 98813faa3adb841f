import SocketServerLib.Lib.LabelledRun
import SocketServerLib.RacingGameServer.SlideBuffer

/-
  `ClientContext` of the select server: the send buffer of one connection, and what
  `SendMsg` and `ResumeSend` do with the answer of `send()`.

  `SlideBuffer` is the class of the IOCP server but for its logging. The answer of `send()`
  is `none` for `SOCKET_ERROR`, else how many of the offered bytes the kernel took. The two
  functions return the status and the bytes taken. `wire` is what the kernel has taken over
  a run by the answers of `send()`, `accepted` the packets that were not refused; both are
  ghosts.

  What is proved:
    1. `sendMsg_fits`, `sendMsg_full`, `resumeSend_spec` — one call of each function.
    2. `stream_exact` — over every run the wire and the buffer hold the accepted packets in
       order, and every call has told what it did.

  What is assumed: `SendMsg` and `ResumeSend` are one step each, though the buffer they share has
  no lock; `send()` takes no more than it is offered; `CopyMemory` copies its source as it was
  before the call.
-/
namespace SelectServer
open RacingGameServer LabelledRun

def maxSendSlideBufferSize : Nat := 1024 * 32

def packetSize : Nat := 4096

inductive SendStatus where
  | WHOLE_SUCCESS | PARTIAL_SUCCESS | FAILED
  deriving DecidableEq, Repr

/-- A packet with something in it: `Init` leaves no more than `PACKET_SIZE` bytes. -/
structure PacketData where
  bytes : Bytes
  size_pos : 0 < bytes.length
  size_le : bytes.length ≤ packetSize

/-- `socket` is `none` for `INVALID_SOCKET`. -/
structure ClientContext where
  socket : Option Nat
  sendBuffer : SlideBuffer

/-- What both functions do with the answer of `send()` for the whole buffer. -/
def sendBuffered (b : SlideBuffer) (nRet : Option Nat) : SlideBuffer × SendStatus × Bytes :=
  match nRet with
  | none => (b, .PARTIAL_SUCCESS, [])
  | some n =>
    ((b.pop n).1, if (b.pop n).1.isEmpty = true then .WHOLE_SUCCESS else .PARTIAL_SUCCESS,
      b.bytes.take n)

/-- The bytes that `send()` takes of the buffer it is offered, by its answer. -/
def takenBytes (b : SlideBuffer) (nRet : Option Nat) : Bytes :=
  match nRet with
  | none => []
  | some n => b.bytes.take n

namespace ClientContext

/-- The context of `s_`. `allocated` is whether `sendBuffer.Init` got its memory, `initialised`
whether `ioctlsocket` and `setsockopt` succeeded. -/
def new (s_ : Nat) (allocated initialised : Bool) : ClientContext :=
  { socket := if initialised = true then some s_ else none
    sendBuffer := .init (if allocated = true then maxSendSlideBufferSize else 0) }

/-- The buffer after `Enqueue`, and whether it succeeded. -/
def stored (c : ClientContext) (data : Bytes) : SlideBuffer × Bool :=
  c.sendBuffer.enqueue (some data) data.length

/-- `pPacket_` is `none` for a null pointer. -/
def sendMsg (c : ClientContext) (pPacket_ : Option PacketData) (nRet : Option Nat) :
    ClientContext × SendStatus × Bytes :=
  match pPacket_ with
  | none => (c, .FAILED, [])
  | some packet =>
    if (c.stored packet.bytes).2 = false then
      ({ c with sendBuffer := (c.stored packet.bytes).1 }, .FAILED, [])
    else
      ({ c with sendBuffer := (sendBuffered (c.stored packet.bytes).1 nRet).1 },
        (sendBuffered (c.stored packet.bytes).1 nRet).2)

def resumeSend (c : ClientContext) (nRet : Option Nat) : ClientContext × SendStatus × Bytes :=
  if c.sendBuffer.isEmpty = true then (c, .WHOLE_SUCCESS, [])
  else
    ({ c with sendBuffer := (sendBuffered c.sendBuffer nRet).1 },
      (sendBuffered c.sendBuffer nRet).2)

/-- What `send()` takes in a `SendMsg`; it is not called for a packet that is refused. -/
def takenOf (c : ClientContext) (packet : PacketData) (nRet : Option Nat) : Bytes :=
  if (c.stored packet.bytes).2 = true then takenBytes (c.stored packet.bytes).1 nRet else []

/-- The kernel takes no more than it is offered. -/
def Offered (b : SlideBuffer) (nRet : Option Nat) : Prop := ∀ n ∈ nRet, n ≤ b.size

instance (b : SlideBuffer) (nRet : Option Nat) : Decidable (Offered b nRet) :=
  inferInstanceAs (Decidable (∀ n ∈ nRet, n ≤ b.size))

/-- The packet fits into what is free of the buffer. -/
def Fits (c : ClientContext) (data : Bytes) : Prop :=
  c.sendBuffer.size + data.length ≤ c.sendBuffer.capacity

instance (c : ClientContext) (data : Bytes) : Decidable (c.Fits data) :=
  inferInstanceAs (Decidable (_ ≤ _))

/-- The buffer is in order, and no larger than it is meant to be. -/
structure Wf (c : ClientContext) : Prop where
  buffer : c.sendBuffer.Wf
  capacity : c.sendBuffer.capacity ≤ maxSendSlideBufferSize

theorem wf_new (s_ : Nat) (allocated initialised : Bool) : (new s_ allocated initialised).Wf := by
  refine ⟨SlideBuffer.wf_init _, ?_⟩
  cases allocated with
  | true => exact Nat.le_refl _
  | false => exact Nat.zero_le _

variable {b : SlideBuffer} {c : ClientContext} {packet : PacketData} {nRet : Option Nat}

/-! ## What `send()` takes -/

theorem sendBuffered_taken (b : SlideBuffer) (nRet : Option Nat) :
    (sendBuffered b nRet).2.2 = takenBytes b nRet := by
  cases nRet <;> rfl

/-- What is taken and what is left make up what was offered. -/
theorem sendBuffered_bytes (h : b.Wf) (hn : Offered b nRet) :
    (sendBuffered b nRet).2.2 ++ (sendBuffered b nRet).1.bytes = b.bytes := by
  cases nRet with
  | none => rfl
  | some n =>
    obtain ⟨-, hbytes, -⟩ := SlideBuffer.pop_spec h (hn n rfl)
    show b.bytes.take n ++ (b.pop n).1.bytes = b.bytes
    rw [hbytes, List.take_append_drop]

theorem sendBuffered_wf (h : b.Wf) (nRet : Option Nat) :
    (sendBuffered b nRet).1.Wf ∧ (sendBuffered b nRet).1.capacity = b.capacity := by
  cases nRet with
  | none => exact ⟨h, rfl⟩
  | some n => exact ⟨h.pop n, SlideBuffer.capacity_pop b n⟩

/-- The status is the one of a buffer that holds something, or of one that does not. -/
theorem sendBuffered_status (h : b.Wf) (hne : b.bytes ≠ []) (nRet : Option Nat) :
    (sendBuffered b nRet).2.1 =
      if (sendBuffered b nRet).1.bytes = [] then .WHOLE_SUCCESS else .PARTIAL_SUCCESS := by
  cases nRet with
  | none => exact (if_neg hne).symm
  | some n =>
    have hempty := (h.pop n).isEmpty_iff
    show (if (b.pop n).1.isEmpty = true then SendStatus.WHOLE_SUCCESS else .PARTIAL_SUCCESS) =
      if (b.pop n).1.bytes = [] then _ else _
    simp only [hempty]

/-! ## One call -/

/-- `Enqueue` stores the packet exactly if it fits. -/
theorem Wf.stored (h : c.Wf) (packet : PacketData) :
    ((c.stored packet.bytes).2 = true ∧
        (c.stored packet.bytes).1.bytes = c.sendBuffer.bytes ++ packet.bytes ∧
        (c.stored packet.bytes).1.Wf) ∧ c.Fits packet.bytes ∨
      c.stored packet.bytes = (c.sendBuffer, false) ∧ ¬ c.Fits packet.bytes := by
  have hcap := h.capacity
  have hsize := h.buffer.size_le
  have hpacket := packet.size_le
  simp only [maxSendSlideBufferSize, packetSize] at hcap hpacket
  by_cases hf : c.Fits packet.bytes
  · exact .inl ⟨SlideBuffer.enqueue_fits h.buffer packet.bytes (by omega) hf, hf⟩
  · refine .inr ⟨SlideBuffer.enqueue_full packet.bytes (by omega) ?_, hf⟩
    exact Nat.lt_of_not_le hf

/-- What `SendMsg` reports as taken is what `send()` has taken of the buffer with the packet. -/
theorem sendMsg_taken (c : ClientContext) (packet : PacketData) (nRet : Option Nat) :
    (c.sendMsg (some packet) nRet).2.2 = c.takenOf packet nRet := by
  unfold takenOf
  cases hok : (c.stored packet.bytes).2 with
  | false => simp only [sendMsg, hok, Bool.false_eq_true, if_true, if_false]
  | true =>
    simp only [sendMsg, hok, Bool.true_eq_false, if_true, if_false]
    exact sendBuffered_taken _ nRet

theorem resumeSend_taken (c : ClientContext) (nRet : Option Nat) :
    (c.resumeSend nRet).2.2 = takenBytes c.sendBuffer nRet := by
  unfold resumeSend
  split
  · next hempty =>
    have hnil : c.sendBuffer.bytes = [] := by
      rw [SlideBuffer.bytes, show c.sendBuffer.size = 0 from of_decide_eq_true hempty]
      rfl
    cases nRet with
    | none => rfl
    | some n =>
      show [] = c.sendBuffer.bytes.take n
      rw [hnil, List.take_nil]
  · exact sendBuffered_taken _ nRet

/-- A packet that does not fit changes nothing. -/
theorem sendMsg_full (h : c.Wf) (hf : ¬ c.Fits packet.bytes) (nRet : Option Nat) :
    c.sendMsg (some packet) nRet = (c, .FAILED, []) := by
  rcases h.stored packet with ⟨-, hfits⟩ | ⟨hstored, -⟩
  · exact absurd hfits hf
  · simp only [sendMsg, hstored, if_true]

/-- A packet that fits is stored, and the status tells whether something is left to send. -/
theorem sendMsg_fits (h : c.Wf) (hf : c.Fits packet.bytes)
    (hn : Offered (c.stored packet.bytes).1 nRet) :
    (c.sendMsg (some packet) nRet).2.2 ++ (c.sendMsg (some packet) nRet).1.sendBuffer.bytes =
        c.sendBuffer.bytes ++ packet.bytes ∧
      (c.sendMsg (some packet) nRet).2.1 =
        if (c.sendMsg (some packet) nRet).1.sendBuffer.bytes = [] then .WHOLE_SUCCESS
        else .PARTIAL_SUCCESS := by
  rcases h.stored packet with ⟨⟨hok, hbytes, hwf⟩, -⟩ | ⟨-, hno⟩
  · have hne : (c.stored packet.bytes).1.bytes ≠ [] := by
      rw [hbytes]
      intro he
      have hlen := congrArg List.length (List.append_eq_nil_iff.mp he).2
      exact absurd hlen (Nat.ne_of_gt packet.size_pos)
    simp only [sendMsg, hok, Bool.true_eq_false, if_false]
    rw [← hbytes]
    exact ⟨sendBuffered_bytes hwf hn, sendBuffered_status hwf hne nRet⟩
  · exact absurd hf hno

/-- `ResumeSend` moves bytes from the buffer to the wire. -/
theorem resumeSend_spec (h : c.Wf) (hn : Offered c.sendBuffer nRet) :
    (c.resumeSend nRet).2.2 ++ (c.resumeSend nRet).1.sendBuffer.bytes = c.sendBuffer.bytes ∧
      (c.resumeSend nRet).2.1 =
        if (c.resumeSend nRet).1.sendBuffer.bytes = [] then .WHOLE_SUCCESS
        else .PARTIAL_SUCCESS := by
  by_cases hempty : c.sendBuffer.isEmpty = true
  · rw [resumeSend, if_pos hempty]
    exact ⟨rfl, (if_pos (h.buffer.isEmpty_iff.mp hempty)).symm⟩
  · rw [resumeSend, if_neg hempty]
    have hne : c.sendBuffer.bytes ≠ [] := fun he => hempty (h.buffer.isEmpty_iff.mpr he)
    exact ⟨sendBuffered_bytes h.buffer hn, sendBuffered_status h.buffer hne nRet⟩

theorem Wf.sendMsg (h : c.Wf) (packet : PacketData) (nRet : Option Nat) :
    (c.sendMsg (some packet) nRet).1.Wf := by
  rcases h.stored packet with ⟨⟨hok, -, hwf⟩, -⟩ | ⟨-, hf⟩
  · obtain ⟨hwf', hcap⟩ := sendBuffered_wf hwf nRet
    simp only [ClientContext.sendMsg, hok, Bool.true_eq_false, if_false]
    refine ⟨hwf', ?_⟩
    show (sendBuffered (c.stored packet.bytes).1 nRet).1.capacity ≤ _
    rw [hcap, ClientContext.stored, SlideBuffer.capacity_enqueue]
    exact h.capacity
  · rw [sendMsg_full h hf]
    exact h

theorem Wf.resumeSend (h : c.Wf) (nRet : Option Nat) : (c.resumeSend nRet).1.Wf := by
  rw [ClientContext.resumeSend]
  split
  · exact h
  · obtain ⟨hwf, hcap⟩ := sendBuffered_wf h.buffer nRet
    exact ⟨hwf, Nat.le_trans (Nat.le_of_eq hcap) h.capacity⟩

end ClientContext

/-! ## Every run -/

/-- A call: `packet` is `none` for `ResumeSend`, `taken` is what the kernel took. -/
structure Call where
  packet : Option PacketData
  before : SlideBuffer
  after : SlideBuffer
  status : SendStatus
  taken : Bytes

namespace Call

/-- The bytes of the packet. -/
def data (call : Call) : Bytes := (call.packet.map PacketData.bytes).getD []

/-- The call put its packet behind what was buffered. -/
def Stored (call : Call) : Prop :=
  call.taken ++ call.after.bytes = call.before.bytes ++ call.data

/-- `FAILED` says that the packet was not stored, and then nothing has changed; the other
statuses tell whether something is left to send. -/
structure Lawful (call : Call) : Prop where
  failed : call.status = .FAILED ↔ ¬ call.Stored
  unchanged : call.status = .FAILED → call.after = call.before ∧ call.taken = []
  whole : call.status ≠ .FAILED →
    (call.status = .WHOLE_SUCCESS ↔ call.after.isEmpty = true) ∧
      (call.status = .PARTIAL_SUCCESS ↔ ¬ call.after.isEmpty = true)

end Call

structure Stream where
  context : ClientContext
  wire : Bytes
  accepted : List PacketData
  calls : List Call

inductive StreamAct where
  | sendMsg (packet : PacketData) (nRet : Option Nat)
  | resumeSend (nRet : Option Nat)

namespace Stream

def init (s_ : Nat) (allocated initialised : Bool) : Stream :=
  { context := .new s_ allocated initialised, wire := [], accepted := [], calls := [] }

/-- The state after a call that has left this context and answered with this status, and in which
`send()` has taken these bytes. -/
def call (s : Stream) (packet : Option PacketData) (taken : Bytes) (context : ClientContext)
    (status : SendStatus) : Stream :=
  { context := context
    wire := s.wire ++ taken
    accepted := if status = .FAILED then s.accepted else s.accepted ++ packet.toList
    calls := s.calls ++ [{ packet := packet, before := s.context.sendBuffer
                           after := context.sendBuffer, status := status, taken := taken }] }

def step (s : Stream) : StreamAct → Option Stream
  | .sendMsg packet nRet =>
    if ClientContext.Offered (s.context.stored packet.bytes).1 nRet then
      some (s.call (some packet) (s.context.takenOf packet nRet)
        (s.context.sendMsg (some packet) nRet).1 (s.context.sendMsg (some packet) nRet).2.1)
    else none
  | .resumeSend nRet =>
    if ClientContext.Offered s.context.sendBuffer nRet then
      some (s.call none (takenBytes s.context.sendBuffer nRet)
        (s.context.resumeSend nRet).1 (s.context.resumeSend nRet).2.1)
    else none

/-- The wire and the buffer hold the accepted packets, and every call has told what it did. -/
structure Lawful (s : Stream) : Prop where
  stream : s.wire ++ s.context.sendBuffer.bytes = (s.accepted.map PacketData.bytes).flatten
  calls : ∀ c ∈ s.calls, c.Lawful

variable {s s' : Stream}

/-- A call that stores its packet and answers with what is left keeps the law. -/
theorem call_stored {packet : Option PacketData} {taken : Bytes} {context : ClientContext}
    {status : SendStatus} (hwf : context.Wf) (hlaw : s.Lawful)
    (hbytes : taken ++ context.sendBuffer.bytes =
      s.context.sendBuffer.bytes ++ (packet.map PacketData.bytes).getD [])
    (hstatus : status =
      if context.sendBuffer.bytes = [] then .WHOLE_SUCCESS else .PARTIAL_SUCCESS) :
    (s.call packet taken context status).Lawful := by
  have hok : status ≠ .FAILED := by
    rw [hstatus]
    split <;> exact SendStatus.noConfusion
  have hempty := hwf.buffer.isEmpty_iff
  constructor
  · show s.wire ++ taken ++ context.sendBuffer.bytes = _
    have haccepted : (s.call packet taken context status).accepted =
        s.accepted ++ packet.toList := if_neg hok
    rw [List.append_assoc, hbytes, ← List.append_assoc, hlaw.stream, haccepted, List.map_append,
      List.flatten_append]
    cases packet with
    | none => rfl
    | some packet => simp
  · intro c hc
    rcases List.mem_append.mp hc with hc | hc
    · exact hlaw.calls c hc
    · obtain rfl := List.mem_singleton.mp hc
      refine ⟨iff_of_false hok fun hno => hno hbytes, fun h => absurd h hok, fun _ => ?_⟩
      simp only [hstatus, hempty]
      split
      · next he => exact ⟨iff_of_true rfl he, iff_of_false SendStatus.noConfusion fun hno => hno he⟩
      · next he => exact ⟨iff_of_false SendStatus.noConfusion he, iff_of_true rfl he⟩

/-- A call that is refused keeps it. -/
theorem call_refused {packet : PacketData} (hlaw : s.Lawful) :
    (s.call (some packet) [] s.context .FAILED).Lawful := by
  constructor
  · show s.wire ++ [] ++ s.context.sendBuffer.bytes = _
    rw [List.append_nil, hlaw.stream]
    rfl
  · intro c hc
    rcases List.mem_append.mp hc with hc | hc
    · exact hlaw.calls c hc
    · obtain rfl := List.mem_singleton.mp hc
      refine ⟨iff_of_true rfl fun hstored => ?_, fun _ => ⟨rfl, rfl⟩, fun h => absurd rfl h⟩
      have hstored : [] ++ s.context.sendBuffer.bytes =
          s.context.sendBuffer.bytes ++ packet.bytes := hstored
      have hnil := List.self_eq_append_right.mp hstored
      have hpos := packet.size_pos
      rw [hnil] at hpos
      exact absurd hpos (Nat.lt_irrefl 0)

theorem step_lawful {a : StreamAct} (h : s.context.Wf ∧ s.Lawful) (hs : step s a = some s') :
    s'.context.Wf ∧ s'.Lawful := by
  obtain ⟨hwf, hlaw⟩ := h
  cases a with
  | sendMsg packet nRet =>
    simp only [step] at hs
    split at hs
    · next hn =>
      obtain rfl := Option.some.inj hs
      refine ⟨hwf.sendMsg packet nRet, ?_⟩
      rw [← ClientContext.sendMsg_taken]
      by_cases hf : s.context.Fits packet.bytes
      · obtain ⟨hbytes, hstatus⟩ := ClientContext.sendMsg_fits hwf hf hn
        exact call_stored (hwf.sendMsg packet nRet) hlaw hbytes hstatus
      · rw [ClientContext.sendMsg_full hwf hf]
        exact call_refused hlaw
    · cases hs
  | resumeSend nRet =>
    simp only [step] at hs
    split at hs
    · next hn =>
      obtain rfl := Option.some.inj hs
      obtain ⟨hbytes, hstatus⟩ := ClientContext.resumeSend_spec hwf hn
      rw [← ClientContext.resumeSend_taken]
      refine ⟨hwf.resumeSend nRet, call_stored (hwf.resumeSend nRet) hlaw ?_ hstatus⟩
      rw [hbytes]
      exact (List.append_nil _).symm
    · cases hs

theorem lawful_init (s_ : Nat) (allocated initialised : Bool) :
    (init s_ allocated initialised).Lawful := by
  refine ⟨rfl, ?_⟩
  intro c hc
  exact absurd hc List.not_mem_nil

/-- Over every run the wire and the buffer hold the accepted packets in call order, each once,
and every status says what the call did. -/
theorem stream_exact {s_ : Nat} {allocated initialised : Bool} {acts : List StreamAct}
    (hr : run step (init s_ allocated initialised) acts = some s) : s.Lawful :=
  (run_stable (I := fun s : Stream => s.context.Wf ∧ s.Lawful)
    (fun _ _ _ h hs => step_lawful h hs)
    ⟨ClientContext.wf_new s_ allocated initialised, lawful_init s_ allocated initialised⟩ hr).2

/-- A packet of 90 bytes. -/
def somePacket : PacketData :=
  { bytes := List.replicate 90 65, size_pos := by decide, size_le := by decide }

/-- A packet in three parts, the second `send()` failing. -/
theorem stream_exact_parts : ∃ s, run step (init 4 true true)
    [.sendMsg somePacket (some 50), .resumeSend none, .resumeSend (some 40)] = some s ∧
      s.Lawful := by
  have hrun : (run step (init 4 true true)
      [.sendMsg somePacket (some 50), .resumeSend none, .resumeSend (some 40)]).isSome = true := by
    decide +kernel
  obtain ⟨s, hs⟩ := Option.isSome_iff_exists.mp hrun
  exact ⟨s, hs, stream_exact hs⟩

end Stream

end SelectServer
