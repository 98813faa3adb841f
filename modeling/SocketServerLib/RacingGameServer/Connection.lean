import SocketServerLib.RacingGameServer.SlideBuffer
import SocketServerLib.RacingGameServer.SendBuffer
import SocketServerLib.RacingGameServer.Job

/-
  `Connection`: the receive buffer and its framing, the send ring with the one
  overlapped structure it posts from, and the stored handler phase.

  Receiving: `GetReqMessage` answers by the first bytes of the buffer alone, so
  it is a prefix framing rule (`reqFraming`), and `GetReqMessage` / `PopRecvBuffer`
  cut the frames of that rule off the front.

  Sending: `m_TCPSendOverlapped.m_wsaBuf[0].len` doubles as the in-flight flag
  (`sendLen`). `post` is what a `WSASend` call answers: `true` for success or
  pending, `false` for another error. The last component of a send operation is
  the gather list it handed to `WSASend`, if it called it.
-/
namespace RacingGameServer

structure Connection where
  recvBuffer : SlideBuffer
  sendBuffer : SendBuffer
  sendWsaBuf : List WSABUF
  isConnected : Bool
  jobProcess : JobProcess

namespace Connection

/-- The connection object as the constructor leaves it. -/
def new : Connection :=
  { recvBuffer := .init maxRecvSlideBufferSize
    sendBuffer := .allocated maxSendSlideBufferSize
    sendWsaBuf := []
    isConnected := false
    jobProcess := .PARSING }

/-! ## Receiving -/

/-- `m_RecvBuf` holds `recvBuf`, the bytes the completed `WSARecv` put there. -/
def storePartialMessage (c : Connection) (recvBuf : Bytes) : Connection × Bool :=
  ({ c with recvBuffer := (c.recvBuffer.enqueue (some recvBuf) recvBuf.length).1 },
    (c.recvBuffer.enqueue (some recvBuf) recvBuf.length).2)

/-- The length of the view `GetReqMessage` gives out, if it returns true. -/
def getReqMessage (c : Connection) : Option Nat :=
  let len := c.recvBuffer.peek
  if len > packetSize then none
  else if len = 0 then none
  else if c.recvBuffer.size < len then none
  else some len

/-- What a view of `len` bytes reads: the array, whatever it holds by then. -/
def view (c : Connection) (len : Nat) : Bytes := c.recvBuffer.data.take len

def popRecvBuffer (c : Connection) (ioSize_ : Nat) : Connection :=
  { c with recvBuffer := (c.recvBuffer.pop ioSize_).1 }

/-- The part of `Init` (run by `ResetConnection`) that touches these fields. -/
def reset (c : Connection) : Connection :=
  { c with isConnected := false, recvBuffer := c.recvBuffer.clear }

/-- The framing rule of `GetReqMessage`: more than four bytes, a length field between one
and `PACKET_SIZE`, and that many bytes stored. -/
def reqFraming : PrefixFraming UInt8 where
  next s :=
    if s.length < 5 then none
    else if readU32 s 0 > packetSize then none
    else if readU32 s 0 = 0 then none
    else if s.length < readU32 s 0 then none
    else some (readU32 s 0)
  pos := by
    intro s n h
    grind
  le := by
    intro s n h
    grind
  stable := by
    intro s n t h
    -- the length field lies in what has already arrived
    have h5 : ¬ s.length < 5 := by grind
    have hread : readU32 (s ++ t) 0 = readU32 s 0 := readU32_append (by omega) t
    simp only [List.length_append, hread]
    grind

/-- The receive buffer of a connection: its array and size agree, and it has the capacity the
constructor gave it. -/
structure RecvWf (c : Connection) : Prop where
  buffer : c.recvBuffer.Wf
  capacity_eq : c.recvBuffer.capacity = maxRecvSlideBufferSize

theorem recvWf_new : new.RecvWf where
  buffer := SlideBuffer.wf_init _
  capacity_eq := rfl

variable {c : Connection}

theorem RecvWf.capacity_lt (h : c.RecvWf) : c.recvBuffer.capacity < 2 ^ 32 := by
  rw [h.capacity_eq, maxRecvSlideBufferSize, maxSockbuf]; omega

theorem getReqMessage_eq (h : c.RecvWf) :
    c.getReqMessage = reqFraming.next c.recvBuffer.bytes := by
  simp only [getReqMessage, reqFraming, h.buffer.peek, h.buffer.bytes_length]
  by_cases h5 : c.recvBuffer.size < 5
  · simp [h5]
  · simp only [if_neg h5]

theorem view_eq (h : c.RecvWf) {n : Nat} (hn : reqFraming.next c.recvBuffer.bytes = some n) :
    c.view n = c.recvBuffer.bytes.take n := by
  have := reqFraming.le hn
  rw [h.buffer.bytes_length] at this
  exact SlideBuffer.take_data _ this

theorem RecvWf.pop (h : c.RecvWf) (n : Nat) : (c.popRecvBuffer n).RecvWf :=
  ⟨h.buffer.pop n, by simpa [popRecvBuffer] using h.capacity_eq⟩

theorem RecvWf.bytes_pop (h : c.RecvWf) {n : Nat}
    (hn : reqFraming.next c.recvBuffer.bytes = some n) :
    (c.popRecvBuffer n).recvBuffer.bytes = c.recvBuffer.bytes.drop n := by
  have hle := reqFraming.le hn
  rw [h.buffer.bytes_length] at hle
  exact (SlideBuffer.pop_spec h.buffer hle).2.1

theorem RecvWf.reset (h : c.RecvWf) : c.reset.RecvWf :=
  ⟨h.buffer.clear, h.capacity_eq⟩

/-- A chunk that fits is appended. -/
theorem RecvWf.store (h : c.RecvWf) {chunk : Bytes}
    (hfit : c.recvBuffer.size + chunk.length ≤ c.recvBuffer.capacity) :
    (c.storePartialMessage chunk).1.RecvWf ∧ (c.storePartialMessage chunk).2 = true ∧
      (c.storePartialMessage chunk).1.recvBuffer.bytes = c.recvBuffer.bytes ++ chunk := by
  obtain ⟨hok, hb, hwf⟩ := SlideBuffer.enqueue_fits h.buffer chunk h.capacity_lt hfit
  exact ⟨⟨hwf, by simpa [storePartialMessage] using h.capacity_eq⟩, hok, hb⟩

/-- A chunk that does not fit is dropped. -/
theorem store_full {chunk : Bytes} (hlt : c.recvBuffer.size + chunk.length < 2 ^ 32)
    (hfull : c.recvBuffer.capacity < c.recvBuffer.size + chunk.length) :
    c.storePartialMessage chunk = (c, false) := by
  rw [storePartialMessage, SlideBuffer.enqueue_full chunk hlt hfull]

/-- A chunk is stored whole or dropped whole. A `WSARecv` is posted for `MAX_SOCKBUF` bytes,
so `m_Size + size_` does not wrap. -/
theorem RecvWf.store_cases (h : c.RecvWf) {chunk : Bytes} (hlen : chunk.length ≤ maxSockbuf) :
    (c.recvBuffer.size + chunk.length ≤ maxRecvSlideBufferSize ∧
      (c.storePartialMessage chunk).2 = true) ∨
    (maxRecvSlideBufferSize < c.recvBuffer.size + chunk.length ∧
      c.storePartialMessage chunk = (c, false)) := by
  have hs := h.buffer.size_le
  have hc := h.capacity_lt
  have he := h.capacity_eq
  have hbig : maxRecvSlideBufferSize + maxSockbuf < 2 ^ 32 := by
    rw [maxRecvSlideBufferSize, maxSockbuf]; omega
  by_cases hfit : c.recvBuffer.size + chunk.length ≤ maxRecvSlideBufferSize
  · exact .inl ⟨hfit, (h.store (by omega)).2.1⟩
  · exact .inr ⟨by omega, store_full (by omega) (by omega)⟩

/-- Storing keeps the buffer well formed, whether or not the chunk fits. -/
theorem RecvWf.store_wf (h : c.RecvWf) {chunk : Bytes} (hlen : chunk.length ≤ maxSockbuf) :
    (c.storePartialMessage chunk).1.RecvWf := by
  rcases h.store_cases hlen with ⟨hfit, -⟩ | ⟨-, he⟩
  · exact (h.store (by rw [h.capacity_eq]; exact hfit)).1
  · rw [he]; exact h

/-- A chunk the buffer took is behind what was there. -/
theorem RecvWf.store_ok (h : c.RecvWf) {chunk : Bytes} (hlen : chunk.length ≤ maxSockbuf)
    (hok : (c.storePartialMessage chunk).2 = true) :
    (c.storePartialMessage chunk).1.RecvWf ∧
      (c.storePartialMessage chunk).1.recvBuffer.bytes = c.recvBuffer.bytes ++ chunk := by
  rcases h.store_cases hlen with ⟨hfit, -⟩ | ⟨-, he⟩
  · obtain ⟨hwf, -, hb⟩ := h.store (by rw [h.capacity_eq]; exact hfit)
    exact ⟨hwf, hb⟩
  · rw [he] at hok
    cases hok

/-! ## Sending -/

/-- `m_TCPSendOverlapped.m_wsaBuf[0].len`. -/
def sendLen (c : Connection) : Nat :=
  match c.sendWsaBuf with
  | [] => 0
  | w :: _ => w.len

def sendTCPIO (c : Connection) (post : Bool) : Connection × Bool × Option (List WSABUF) :=
  let ws := c.sendBuffer.getWSABUF maxWsabufs
  ({ c with sendWsaBuf := ws }, post, some ws)

/-- The part of `SendMsgTCP` under `m_TCPSpinLock`. -/
def sendMsgTCPLocked (c : Connection) (pData_ : Option PacketData) (post : Bool) :
    Connection × Bool × Option (List WSABUF) :=
  match c.sendBuffer.push pData_ with
  | (_, false) => (c, false, none)
  | (ring, true) =>
    let c' := { c with sendBuffer := ring }
    -- a failed post is returned as it is: the packet has been pushed
    if c'.sendLen = 0 then c'.sendTCPIO post else (c', true, none)

def sendMsgTCP (c : Connection) (pData_ : Option PacketData) (post : Bool) :
    Connection × Bool × Option (List WSABUF) :=
  if pData_.isNone ∨ c.isConnected = false then (c, false, none)
  else c.sendMsgTCPLocked pData_ post

def reSendTCP (c : Connection) (post : Bool) : Connection × Bool × Option (List WSABUF) :=
  c.sendTCPIO post

/-- `m_TCPSendOverlapped.m_wsaBuf[0].len = 0`. -/
def clearLen : List WSABUF → List WSABUF
  | [] => []
  | w :: ws => { w with len := 0 } :: ws

/-- The second component is what went back to the packet pool. -/
def tcpSendCompleted (c : Connection) (ioSize_ : Nat) (post : Bool) :
    Connection × List PacketData × Option (List WSABUF) :=
  let popped := c.sendBuffer.pop ioSize_
  let c' := { c with sendBuffer := popped.1, sendWsaBuf := clearLen c.sendWsaBuf }
  if c'.sendBuffer.isEmpty then (c', popped.2, none)
  else ((c'.sendTCPIO post).1, popped.2, (c'.sendTCPIO post).2.2)

theorem sendLen_clear (c : Connection) (ring : SendBuffer) :
    ({ c with sendBuffer := ring
              sendWsaBuf := clearLen c.sendWsaBuf } : Connection).sendLen = 0 := by
  unfold sendLen clearLen
  cases c.sendWsaBuf <;> rfl

/-- The three ways the locked part of `SendMsgTCP` goes: refused by a full ring, pushed
behind a send in flight, or pushed and posted at once. -/
theorem sendMsgTCPLocked_cases (c : Connection) (p : PacketData) (post : Bool) :
    (c.sendBuffer.isFull = true ∧ c.sendMsgTCPLocked (some p) post = (c, false, none)) ∨
    (c.sendBuffer.isFull = false ∧ c.sendLen ≠ 0 ∧
      c.sendMsgTCPLocked (some p) post =
        ({ c with sendBuffer := (c.sendBuffer.push (some p)).1 }, true, none)) ∨
    (c.sendBuffer.isFull = false ∧ c.sendLen = 0 ∧
      c.sendMsgTCPLocked (some p) post =
        ({ c with
            sendBuffer := (c.sendBuffer.push (some p)).1
            sendWsaBuf := (c.sendBuffer.push (some p)).1.getWSABUF maxWsabufs }, post,
          some ((c.sendBuffer.push (some p)).1.getWSABUF maxWsabufs))) := by
  cases hf : c.sendBuffer.isFull with
  | true => exact .inl ⟨rfl, by simp only [sendMsgTCPLocked, SendBuffer.push_full _ _ hf]⟩
  | false =>
    by_cases hl : c.sendLen = 0
    · refine .inr (.inr ⟨rfl, hl, ?_⟩)
      simp only [sendMsgTCPLocked, SendBuffer.push_room _ _ hf, sendTCPIO]
      exact if_pos hl
    · refine .inr (.inl ⟨rfl, hl, ?_⟩)
      simp only [sendMsgTCPLocked, SendBuffer.push_room _ _ hf]
      exact if_neg hl

open SendBuffer in
/-- The same on the queue of the ring. -/
theorem sendMsgTCPLocked_spec {q : List PacketData} (h : c.sendBuffer.Holds q) (p : PacketData)
    (post : Bool) :
    (c.sendBuffer.isFull = true ∧ c.sendMsgTCPLocked (some p) post = (c, false, none)) ∨
    ∃ ring, ring.Holds (q ++ [p]) ∧ ring.capacity = c.sendBuffer.capacity ∧
      c.sendBuffer.isFull = false ∧ ((c.sendLen ≠ 0 ∧
          c.sendMsgTCPLocked (some p) post = ({ c with sendBuffer := ring }, true, none)) ∨
        (c.sendLen = 0 ∧ c.sendMsgTCPLocked (some p) post =
          ({ c with sendBuffer := ring, sendWsaBuf := gather maxWsabufs 0 0 (q ++ [p]) }, post,
            some (gather maxWsabufs 0 0 (q ++ [p]))))) := by
  have hw : maxWsabufs ≠ 0 := by decide
  rcases c.sendMsgTCPLocked_cases p post with ⟨hf, he⟩ | ⟨hf, hl, he⟩ | ⟨hf, hl, he⟩
  · exact .inl ⟨hf, he⟩
  · exact .inr ⟨_, h.push p hf, capacity_push .., hf, .inl ⟨hl, he⟩⟩
  · refine .inr ⟨_, h.push p hf, capacity_push .., hf, .inr ⟨hl, ?_⟩⟩
    rw [he, getWSABUF_spec (h.push p hf) hw]

/-- `SendMsgTCP` pushes the packet, posts, and the post fails. -/
def PostFails (c : Connection) (post : Bool) : Prop :=
  c.isConnected = true ∧ c.sendBuffer.isFull = false ∧ c.sendLen = 0 ∧ post = false

instance (c : Connection) (post : Bool) : Decidable (c.PostFails post) :=
  inferInstanceAs (Decidable (_ ∧ _ ∧ _ ∧ _))

/-- `SendMsgTCP` refuses the packet and changes nothing, or has it in the ring afterwards; it
then returns true unless its post failed. -/
theorem sendMsgTCP_spec {q : List PacketData} (h : c.sendBuffer.Holds q) (p : PacketData)
    (post : Bool) :
    (¬ c.PostFails post ∧ c.sendMsgTCP (some p) post = (c, false, none)) ∨
    ((c.sendMsgTCP (some p) post).1.sendBuffer.Holds (q ++ [p]) ∧
      ((c.sendMsgTCP (some p) post).2.1 = false ↔ c.PostFails post)) := by
  cases hconn : c.isConnected with
  | false =>
    refine .inl ⟨fun hf => ?_, by simp [sendMsgTCP, hconn]⟩
    cases hconn.symm.trans hf.1
  | true =>
    have hlocked : c.sendMsgTCP (some p) post = c.sendMsgTCPLocked (some p) post := by
      simp [sendMsgTCP, hconn]
    rw [hlocked]
    rcases sendMsgTCPLocked_spec h p post with
      ⟨hfull, he⟩ | ⟨ring, hring, -, hroom, ⟨hlen, he⟩ | ⟨hlen, he⟩⟩ <;> rw [he]
    · refine .inl ⟨fun hf => ?_, rfl⟩
      cases hfull.symm.trans hf.2.1
    · exact .inr ⟨hring, fun h' => (by cases h'), fun hf => absurd hf.2.2.1 hlen⟩
    · exact .inr ⟨hring, fun hpost => ⟨hconn, hroom, hlen, hpost⟩, fun hf => hf.2.2.2⟩

open SendBuffer in
/-- A completion takes the bytes off the queue. If packets are left it posts the next
gather list, and otherwise it clears the flag. -/
theorem tcpSendCompleted_spec {q : List PacketData} (h : c.sendBuffer.Holds q) (n : Nat)
    (post : Bool) :
    ∃ ring, ring.Holds (dropBytes n q).1 ∧
      (((dropBytes n q).1 = [] ∧ c.tcpSendCompleted n post =
          ({ c with sendBuffer := ring, sendWsaBuf := clearLen c.sendWsaBuf },
            (dropBytes n q).2, none)) ∨
        ((dropBytes n q).1 ≠ [] ∧ c.tcpSendCompleted n post =
          ({ c with sendBuffer := ring, sendWsaBuf := gather maxWsabufs 0 0 (dropBytes n q).1 },
            (dropBytes n q).2, some (gather maxWsabufs 0 0 (dropBytes n q).1)))) := by
  obtain ⟨hring, hfreed⟩ := pop_spec h n
  refine ⟨_, hring, ?_⟩
  by_cases he : (dropBytes n q).1 = []
  · refine .inl ⟨he, ?_⟩
    simp only [tcpSendCompleted, hring.isEmpty_iff.mpr he, if_true, hfreed]
  · have hne : (c.sendBuffer.pop n).1.isEmpty = false :=
      Bool.eq_false_iff.mpr fun h' => he (hring.isEmpty_iff.mp h')
    refine .inr ⟨he, ?_⟩
    simp only [tcpSendCompleted, hne, Bool.false_eq_true, if_false, sendTCPIO,
      getWSABUF_spec hring (by decide : maxWsabufs ≠ 0), hfreed]

end Connection

end RacingGameServer
