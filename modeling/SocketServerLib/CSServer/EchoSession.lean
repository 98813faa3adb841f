import SocketServerLib.CSServer.ReqHandler
import SocketServerLib.CSServer.SendLoop

/-
  One client of the C# server from its bytes in to its bytes out: `RecvLoop`, `HandleReq`,
  `HandleEchoJob` and `SendMsg`, which all run in one flow.

  `SendAsync` takes what it has room for of the bytes offered, or throws, as in `SendLoop`.
  `received` is what `ReceiveAsync` has brought, `stored` the part of it that went into the receive
  buffer, `given` the messages that `OnReceive` got and `wire` what `SendAsync` has taken; the
  first three are ghosts. `found` is whether `m_Clients` has the client already: `AcceptLoop`
  starts `RecvLoop` before it adds the client. `handle` is a task and never null, as in
  `SendLoop`, so that every `SendMsg` comes to its loop although the lock is not given back.

  What is proved:
    1. `step_inv` — every step keeps the framing of what was stored, and the send buffer is
       empty outside of `SendMsg`.
    2. `Inv.whole` — no byte of a stream of frames is lost in the receive buffer.
    3. `step_even`, `step_odd` — a step keeps the bytes for the client what is owed, unless
       `SendAsync` throws something else than a `SocketException`.
    4. `replies_iff` — whenever the flow waits for the client, this one has got the replies to
       its complete frames, in order and once, if and only if it never threw so.

  What is assumed: `m_IsRun` is true all the time, no other flow calls `SendMsg` for the client,
  and `Array.Copy` copies its source as it was before the call.
-/
namespace CSServer
open RacingGameServer (Bytes toInt32 readU32 leEncode leEncode_length)
open LabelledRun PrefixFraming ChunkedFraming SlideBuffer
open SendContext (Stops handleSendException_eq_false)
open RecvState (IsFrame recvAsync_fits)

/-- Where the flow of the client is; `sendLoop` is the loop of `SendMsg`. -/
inductive SessionPoint where
  | recvAsync
  | getMsg
  | handleReq (msg_ : ArraySegment)
  | handleEchoJob (msg_ data : ArraySegment)
  | sendLoop (msg_ data : ArraySegment)
  | popMsg (msg_ : ArraySegment)
  | left

structure Session where
  context : RecvContext
  send : SendContext
  point : SessionPoint
  received : Bytes
  stored : Bytes
  given : List Bytes
  wire : Bytes

inductive SessionAct where
  | recvAsync (recved : Option Bytes)
  | getMsg
  | handleReq
  | handleEchoJob (found : Bool)
  | sendAsync (outcome : SendOutcome)
  | popMsg

/-- What a call of `SendAsync` takes of the bytes offered. -/
def SendContext.bytesTaken (c : SendContext) : SendOutcome → Bytes
  | .sent room =>
    c.sendBuffer.segment (min room
      (if c.sendBuffer.size > maxSegmentSize then maxSegmentSize else c.sendBuffer.size))
  | .threw _ => []

instance : DecidablePred Stops
  | .sent _ => .isFalse id
  | .threw ex => inferInstanceAs (Decidable (ex ≠ .socketException))

namespace Session

def init : Session :=
  { context := .new, send := { socket := true, sendBuffer := .new sendBufferSize }
    point := .recvAsync, received := [], stored := [], given := [], wire := [] }

def array (s : Session) : Bytes := s.context.recvBuffer.buffer

/-- What the receive buffer holds. -/
def content (s : Session) : Bytes := s.context.recvBuffer.bytes

/-- `ReceiveAsync` brings no more than `m_buffer` has room for. -/
def recvAsync (s : Session) (recved : Option Bytes) : Session :=
  let r := s.context.recvAsync recved
  let brought := recved.getD []
  if r.2.1 = false then { s with context := r.1, point := .left }
  else
    { s with
      context := r.1
      point := .getMsg
      received := s.received ++ brought
      stored := if r.2.2 = [true] then s.stored ++ brought else s.stored }

/-- `HandleEchoJob` up to the loop of `SendMsg`. Where this is not reached the job is not finished,
and `HandleReq` calls it once more. -/
def handleEchoJob (s : Session) (found : Bool) (msg_ data : ArraySegment) : Session :=
  match CSServer.handleEchoJob s.array data with
  | none => { s with point := .popMsg msg_ }
  | some buffer =>
    if found = false ∨ s.send.socket = false then s
    else
      let r := s.send.sendBuffer.enqueue buffer buffer.length
      let send := { s.send with sendBuffer := r.1 }
      if r.2 = false then { s with send := send }
      else { s with send := send, point := .sendLoop msg_ data }

/-- One turn of the loop of `SendMsg`. -/
def sendAsync (s : Session) (msg_ data : ArraySegment) (outcome : SendOutcome) : Session :=
  match s.send.turn outcome with
  | .inl (true, send) => { s with send := send, point := .popMsg msg_ }
  | .inl (false, send) => { s with send := send, point := .handleEchoJob msg_ data }
  | .inr send => { s with send := send, wire := s.wire ++ s.send.bytesTaken outcome }

def step (s : Session) : SessionAct → Option Session
  | .recvAsync recved =>
    match s.point with
    | .recvAsync =>
      if (recved.getD []).length ≤ maxSegmentSize then some (s.recvAsync recved) else none
    | _ => none
  | .getMsg =>
    match s.point with
    | .getMsg =>
      match s.context.recvBuffer.getMsg with
      | none => some { s with point := .recvAsync }
      | some n =>
        let msg_ : ArraySegment := { offset := 0, count := n }
        some { s with point := .handleReq msg_, given := s.given ++ [msg_.read s.array] }
    | _ => none
  | .handleReq =>
    match s.point with
    | .handleReq msg_ =>
      match CSServer.handleReq s.array msg_ with
      | .threw => some { s with point := .left }
      | .returned _ => some { s with point := .popMsg msg_ }
      | .calls data => some { s with point := .handleEchoJob msg_ data }
    | _ => none
  | .handleEchoJob found =>
    match s.point with
    | .handleEchoJob msg_ data => some (s.handleEchoJob found msg_ data)
    | _ => none
  | .sendAsync outcome =>
    match s.point with
    | .sendLoop msg_ data => some (s.sendAsync msg_ data outcome)
    | _ => none
  | .popMsg =>
    match s.point with
    | .popMsg msg_ =>
      let recvBuffer := (s.context.recvBuffer.pop msg_.count).1
      some { s with context := { s.context with recvBuffer := recvBuffer }, point := .getMsg }
    | _ => none

/-- The flow waits for the client, or has left its loop. -/
def Waits (s : Session) : Prop := s.point = .recvAsync ∨ s.point = .left

/-- `SendAsync`, where it is called, does not throw something else than a `SocketException`. -/
def Kept (s : Session) : SessionAct → Prop
  | .sendAsync outcome => s.send.sendBuffer.size = 0 ∨ ¬ Stops outcome
  | _ => True

instance (s : Session) : DecidablePred s.Kept
  | .recvAsync _ => .isTrue trivial
  | .getMsg => .isTrue trivial
  | .handleReq => .isTrue trivial
  | .handleEchoJob _ => .isTrue trivial
  | .sendAsync outcome =>
    inferInstanceAs (Decidable (s.send.sendBuffer.size = 0 ∨ ¬ Stops outcome))
  | .popMsg => .isTrue trivial

end Session

/-- What a request is answered with. -/
def reply (request : Bytes) : Bytes := if EchoReq request then echoResponse 0 request else []

theorem reply_echo {request : Bytes} (h : EchoReq request) :
    reply request = echoResponse 0 request := if_pos h

theorem reply_rejected {request : Bytes} (h : ¬ EchoReq request) : reply request = [] := if_neg h

theorem echoResponse_length {request : Bytes} (h : EchoReq request) :
    (echoResponse 0 request).length = 96 := by
  obtain ⟨hlen, -⟩ := h
  simp only [sizeofReqHeader, sizeofEchoParameter, maxEchoSize] at hlen
  simp only [echoResponse, List.length_append, leEncode_length, List.length_take,
    List.length_drop]
  omega

namespace Session

/-- A message is in hand: it is the frame at the front of the buffer. -/
structure Handles (s : Session) (msg_ : ArraySegment) : Prop where
  offset : msg_.offset = 0
  next : msgFraming.next s.content = some msg_.count
  splits : msgFraming.Splits s.stored s.given.dropLast s.content
  given : s.given = s.given.dropLast ++ [s.content.take msg_.count]

/-- What the flow knows of the message in hand. -/
def request (s : Session) (msg_ : ArraySegment) : Bytes := s.content.take msg_.count

/-- `data` is what is behind the header of an echo request. -/
structure Parses (s : Session) (msg_ data : ArraySegment) : Prop where
  read : data.read s.array = (s.request msg_).drop sizeofReqHeader
  header : sizeofReqHeader ≤ (s.request msg_).length
  type : toInt32 (readU32 (s.request msg_) 4) = 0

/-- What holds at a point; outside of `SendMsg` the send buffer is empty, but for a reply that
could not be sent. -/
def AtPoint (s : Session) : SessionPoint → Prop
  | .recvAsync | .left =>
    (msgFraming.Splits s.stored s.given s.content ∧ msgFraming.next s.content = none) ∧
      s.send.sendBuffer.size = 0
  | .getMsg => msgFraming.Splits s.stored s.given s.content ∧ s.send.sendBuffer.size = 0
  | .handleReq msg_ => s.Handles msg_ ∧ s.send.sendBuffer.size = 0
  | .handleEchoJob msg_ data =>
    (s.Handles msg_ ∧ s.Parses msg_ data) ∧
      (s.send.sendBuffer.size = 0 ∨ EchoReq (s.request msg_))
  | .sendLoop msg_ data =>
    (s.Handles msg_ ∧ s.Parses msg_ data) ∧ EchoReq (s.request msg_)
  | .popMsg msg_ => s.Handles msg_ ∧ s.send.sendBuffer.size = 0

structure Inv (s : Session) : Prop where
  recv : s.context.recvBuffer.Wf
  cap : s.context.recvBuffer.cap = recvBufferSize
  send : s.send.sendBuffer.Wf
  point : s.AtPoint s.point

/-- What the client should have got when the flow is through with what is in hand: the reply to
a message counts from where it has been stored in the send buffer. -/
def owed (s : Session) : Bytes :=
  match s.point with
  | .handleReq _ | .handleEchoJob _ _ => s.given.dropLast.flatMap reply
  | _ => s.given.flatMap reply

/-- What the client has got, or will. -/
def paid (s : Session) : Bytes := s.wire ++ s.send.sendBuffer.bytes

/-- More is paid than owed. -/
def Odd (s : Session) : Prop := s.owed.length < s.paid.length

variable {s s' : Session} {a : SessionAct} {msg_ data : ArraySegment}

theorem inv_init : init.Inv where
  recv := wf_new recvBufferSize
  cap := rfl
  send := wf_new sendBufferSize
  point := ⟨⟨.nil [], rfl⟩, rfl⟩

/-! ## The message in hand -/

theorem Inv.getMsg (h : s.Inv) : s.context.recvBuffer.getMsg = msgFraming.next s.content :=
  h.recv.getMsg

/-- The segment of a message reads the message. -/
theorem read_front (hs : s.Inv) {n : Nat} (hn : msgFraming.next s.content = some n) :
    ArraySegment.read { offset := 0, count := n } s.array = s.content.take n := by
  have hle : n ≤ s.context.recvBuffer.size := by
    rw [← hs.recv.bytes_length]
    exact msgFraming.le hn
  rw [ArraySegment.read, List.drop_zero]
  exact segment_eq hle

theorem Handles.read (h : s.Handles msg_) (hs : s.Inv) :
    msg_.read s.array = s.request msg_ := by
  obtain ⟨offset, count⟩ := msg_
  obtain rfl : offset = 0 := h.offset
  exact read_front hs h.next

theorem Handles.length (h : s.Handles msg_) : msg_.count = (s.request msg_).length := by
  rw [request, List.length_take]
  exact (Nat.min_eq_left (msgFraming.le h.next)).symm

/-- What a message is handled with depends on the receiving side alone. -/
theorem Handles.congr (h : s.Handles msg_) (hcontext : s'.context = s.context)
    (hstored : s'.stored = s.stored) (hgiven : s'.given = s.given) : s'.Handles msg_ := by
  have hcontent : s'.content = s.content := by rw [content, content, hcontext]
  refine ⟨h.offset, ?_, ?_, ?_⟩
  · rw [hcontent]
    exact h.next
  · rw [hcontent, hstored, hgiven]
    exact h.splits
  · rw [hcontent, hgiven]
    exact h.given

theorem request_congr (hcontext : s'.context = s.context) (msg_ : ArraySegment) :
    s'.request msg_ = s.request msg_ := by
  rw [request, request, content, content, hcontext]

theorem Parses.congr (h : s.Parses msg_ data) (hcontext : s'.context = s.context) :
    s'.Parses msg_ data := by
  have hrequest := request_congr hcontext msg_
  refine ⟨?_, ?_, ?_⟩
  · rw [hrequest, array, hcontext]
    exact h.read
  · rw [hrequest]
    exact h.header
  · rw [hrequest]
    exact h.type

/-! ## The parts of a step -/

/-- A call of `SendAsync` takes the first bytes off the send buffer. -/
theorem popSent_bytes {c : SendContext} (h : c.sendBuffer.Wf) {n : Nat}
    (hn : n ≤ c.sendBuffer.size) :
    (c.popSent n).sendBuffer.Wf ∧
      c.sendBuffer.segment n ++ (c.popSent n).sendBuffer.bytes = c.sendBuffer.bytes := by
  rw [segment_eq hn]
  by_cases hpos : n > 0
  · obtain ⟨-, hbytes, hwf⟩ := pop_spec h hn
    rw [SendContext.popSent, if_pos hpos]
    refine ⟨hwf, ?_⟩
    rw [hbytes]
    exact List.take_append_drop n c.sendBuffer.bytes
  · rw [SendContext.popSent, if_neg hpos, Nat.eq_zero_of_not_pos hpos]
    exact ⟨h, rfl⟩

/-- The loop of `SendMsg` ends over an empty buffer or where it is stopped, and else takes off
what is sent. -/
theorem turn_cases {c : SendContext} (h : c.sendBuffer.Wf) (outcome : SendOutcome) :
    (c.sendBuffer.size = 0 ∧ c.turn outcome = .inl (true, c)) ∨
    (c.sendBuffer.size ≠ 0 ∧ Stops outcome ∧ c.turn outcome = .inl (false, c)) ∨
    (c.sendBuffer.size ≠ 0 ∧ ¬ Stops outcome ∧ ∃ c', c.turn outcome = .inr c' ∧
      c'.sendBuffer.Wf ∧ c.bytesTaken outcome ++ c'.sendBuffer.bytes = c.sendBuffer.bytes) := by
  by_cases hsize : c.sendBuffer.size = 0
  · exact .inl ⟨hsize, if_pos hsize⟩
  cases outcome with
  | sent room =>
    refine .inr (.inr ⟨hsize, id, _, if_neg hsize, ?_⟩)
    apply popSent_bytes h
    split <;> omega
  | threw ex =>
    by_cases hstop : Stops (.threw ex)
    · refine .inr (.inl ⟨hsize, hstop, ?_⟩)
      rw [SendContext.turn, if_neg hsize]
      exact if_pos (handleSendException_eq_false.mpr hstop)
    · refine .inr (.inr ⟨hsize, hstop, c, ?_, h, rfl⟩)
      rw [SendContext.turn, if_neg hsize]
      exact if_neg fun hlost => hstop (handleSendException_eq_false.mp hlost)

/-- A message is rejected, or its job begins. -/
theorem handleReq_spec (hs : s.Inv) (h : s.Handles msg_) :
    (CSServer.handleReq s.array msg_ = .returned .Rejected ∧ ¬ EchoReq (s.request msg_)) ∨
    ∃ data, CSServer.handleReq s.array msg_ = .calls data ∧ s.Parses msg_ data := by
  have hread := h.read hs
  rcases handleReq_cases hread h.length with hreject | ⟨hcall, hlen, htype⟩
  · exact .inl hreject
  · exact .inr ⟨_, hcall, read_data hread, hlen, htype⟩

/-- A job is rejected, or not finished, or its reply is stored. -/
theorem handleEchoJob_spec (hs : s.Inv) (h : s.Parses msg_ data) (found : Bool) :
    (¬ EchoReq (s.request msg_) ∧
      s.handleEchoJob found msg_ data = { s with point := .popMsg msg_ }) ∨
    (EchoReq (s.request msg_) ∧ s.handleEchoJob found msg_ data = s) ∨
    (EchoReq (s.request msg_) ∧ ∃ b, b.Wf ∧
      b.bytes = s.send.sendBuffer.bytes ++ echoResponse 0 (s.request msg_) ∧
      s.handleEchoJob found msg_ data =
        { s with send := { s.send with sendBuffer := b }, point := .sendLoop msg_ data }) := by
  unfold handleEchoJob
  rcases handleEchoJob_cases h.read h.header h.type with ⟨hnone, hreq⟩ | ⟨hsome, hreq⟩
  · rw [hnone]
    exact .inl ⟨hreq, rfl⟩
  rw [hsome]
  by_cases hlost : found = false ∨ s.send.socket = false
  · exact .inr (.inl ⟨hreq, if_pos hlost⟩)
  simp only [if_neg hlost]
  rcases enqueue_cases hs.send (echoResponse 0 (s.request msg_))
    (echoResponse 0 (s.request msg_)).length with hfull | ⟨hok, hbytes, hwf⟩
  · rw [hfull]
    exact .inr (.inl ⟨hreq, rfl⟩)
  · rw [List.take_length] at hbytes
    refine .inr (.inr ⟨hreq, _, hwf, hbytes, ?_⟩)
    rw [hok]
    rfl

/-- What `ReceiveAsync` brings is stored as a whole or not at all. -/
theorem recvAsync_spec (hs : s.Inv) (recved : Option Bytes) :
    (∃ c, c.recvBuffer = s.context.recvBuffer ∧
      s.recvAsync recved = { s with context := c, point := .left }) ∨
    (∃ c msg, recved = some msg ∧ 0 < msg.length ∧ c.recvBuffer = s.context.recvBuffer ∧
      recvBufferSize < s.content.length + msg.length ∧
      s.recvAsync recved =
        { s with context := c, point := .getMsg, received := s.received ++ msg }) ∨
    ∃ c msg, recved = some msg ∧ c.recvBuffer.Wf ∧ c.recvBuffer.cap = recvBufferSize ∧
      c.recvBuffer.bytes = s.content ++ msg ∧
      s.recvAsync recved =
        { s with
          context := c
          point := .getMsg
          received := s.received ++ msg
          stored := s.stored ++ msg } := by
  unfold Session.recvAsync
  cases recved with
  | none => exact .inl ⟨s.context, rfl, rfl⟩
  | some msg =>
    by_cases hpos : 0 < msg.length
    · by_cases hfit : s.content.length + msg.length ≤ s.context.recvBuffer.cap
      · obtain ⟨hret, hwf, hcap, hbytes⟩ := recvAsync_fits hs.recv hpos hfit
        obtain ⟨hgo, hok⟩ := Prod.mk.inj hret
        refine .inr (.inr ⟨_, msg, rfl, hwf, hcap.trans hs.cap, hbytes, ?_⟩)
        simp only [hgo, hok, Bool.true_eq_false, if_false, if_true, Option.getD_some]
      · have hfull : s.context.recvBuffer.cap < s.context.recvBuffer.size + msg.length := by
          rw [← hs.recv.bytes_length]
          exact Nat.lt_of_not_le hfit
        have hne : ¬ msg.length = 0 := by omega
        refine .inr (.inl ⟨{ s.context with
          m_buffer := msg ++ s.context.m_buffer.drop msg.length }, msg, rfl, hpos, rfl, ?_, ?_⟩)
        · rw [← hs.cap]
          exact Nat.lt_of_not_le hfit
        · simp only [RecvContext.recvAsync, if_neg hne, enqueue_full hfull hpos,
            Bool.true_eq_false, if_false, Option.getD_some]
          rfl
    · refine .inl ⟨s.context, rfl, ?_⟩
      have hzero : msg.length = 0 := by omega
      simp only [RecvContext.recvAsync, if_pos hzero, if_true]

/-! ## One step -/

/-- A step pays what it comes to owe, or takes back a reply that is stored. -/
def Balances (s : Session) (a : SessionAct) (s' : Session) : Prop :=
  (s.Kept a ∧ ∃ t, s'.paid = s.paid ++ t ∧ s'.owed = s.owed ++ t) ∨
  (¬ s.Kept a ∧ s'.paid = s.paid ∧ s'.owed.length < s.owed.length)

/-- What a step that is not a call of `SendAsync` keeps. -/
theorem Balances.same (hkept : s.Kept a) (hpaid : s'.paid = s.paid) (howed : s'.owed = s.owed) :
    s.Balances a s' := by
  refine .inl ⟨hkept, [], ?_, ?_⟩
  · rw [hpaid, List.append_nil]
  · rw [howed, List.append_nil]

/-- The message in hand is the last one given. -/
theorem Handles.flatMap (h : s.Handles msg_) :
    s.given.flatMap reply = s.given.dropLast.flatMap reply ++ reply (s.request msg_) := by
  conv_lhs => rw [h.given]
  rw [List.flatMap_append, List.flatMap_singleton]
  rfl

theorem Inv.recvAsync (hs : s.Inv) (hpoint : s.point = .recvAsync) (recved : Option Bytes) :
    (s.recvAsync recved).Inv ∧ s.Balances (.recvAsync recved) (s.recvAsync recved) := by
  have hat := hs.point
  rw [hpoint] at hat
  obtain ⟨⟨hsplits, hnext⟩, hsize⟩ := hat
  have howed : s.owed = s.given.flatMap reply := by rw [owed, hpoint]
  rcases recvAsync_spec hs recved with ⟨c, hc, h⟩ | ⟨c, msg, -, -, hc, -, h⟩ |
    ⟨c, msg, -, hwf, hcap, hbytes, h⟩
  · rw [h]
    refine ⟨⟨?_, ?_, hs.send, ⟨⟨?_, ?_⟩, hsize⟩⟩, .same trivial rfl howed.symm⟩
    · exact hc ▸ hs.recv
    · exact hc ▸ hs.cap
    · show msgFraming.Splits s.stored s.given c.recvBuffer.bytes
      rw [hc]
      exact hsplits
    · show msgFraming.next c.recvBuffer.bytes = none
      rw [hc]
      exact hnext
  · rw [h]
    refine ⟨⟨?_, ?_, hs.send, ⟨?_, hsize⟩⟩, .same trivial rfl howed.symm⟩
    · exact hc ▸ hs.recv
    · exact hc ▸ hs.cap
    · show msgFraming.Splits s.stored s.given c.recvBuffer.bytes
      rw [hc]
      exact hsplits
  · rw [h]
    refine ⟨⟨hwf, hcap, hs.send, ⟨?_, hsize⟩⟩, .same trivial rfl howed.symm⟩
    show msgFraming.Splits (s.stored ++ msg) s.given c.recvBuffer.bytes
    rw [hbytes]
    exact hsplits.append msg

theorem Inv.getMsg_none (hs : s.Inv) (hpoint : s.point = .getMsg)
    (hnone : s.context.recvBuffer.getMsg = none) :
    Inv { s with point := .recvAsync } ∧ s.Balances .getMsg { s with point := .recvAsync } := by
  have hat := hs.point
  rw [hpoint] at hat
  have howed : s.owed = s.given.flatMap reply := by rw [owed, hpoint]
  rw [hs.getMsg] at hnone
  exact ⟨⟨hs.recv, hs.cap, hs.send, ⟨⟨hat.1, hnone⟩, hat.2⟩⟩, .same trivial rfl howed.symm⟩

theorem Inv.getMsg_some (hs : s.Inv) (hpoint : s.point = .getMsg) {n : Nat}
    (hn : s.context.recvBuffer.getMsg = some n) :
    let msg_ : ArraySegment := { offset := 0, count := n }
    let s' := { s with point := .handleReq msg_, given := s.given ++ [msg_.read s.array] }
    s'.Inv ∧ s.Balances .getMsg s' := by
  have hat := hs.point
  rw [hpoint] at hat
  have howed : s.owed = s.given.flatMap reply := by rw [owed, hpoint]
  rw [hs.getMsg] at hn
  refine ⟨⟨hs.recv, hs.cap, hs.send, ⟨⟨rfl, hn, ?_, ?_⟩, hat.2⟩⟩, .same trivial rfl ?_⟩
  · rw [List.dropLast_concat]
    exact hat.1
  · rw [List.dropLast_concat, read_front hs hn]
    rfl
  · rw [howed]
    show (s.given ++ [_]).dropLast.flatMap reply = _
    rw [List.dropLast_concat]

theorem Inv.handleReq (hs : s.Inv) (hpoint : s.point = .handleReq msg_)
    (h : step s .handleReq = some s') : s'.Inv ∧ s.Balances .handleReq s' := by
  have hat := hs.point
  rw [hpoint] at hat
  obtain ⟨hhandles, hsize⟩ := hat
  have howed : s.owed = s.given.dropLast.flatMap reply := by rw [owed, hpoint]
  simp only [step, hpoint] at h
  rcases handleReq_spec hs hhandles with ⟨hreject, hreq⟩ | ⟨data, hcall, hparses⟩
  · rw [hreject] at h
    obtain rfl := Option.some.inj h
    refine ⟨⟨hs.recv, hs.cap, hs.send, ⟨hhandles.congr rfl rfl rfl, hsize⟩⟩,
      .same trivial rfl ?_⟩
    rw [howed]
    exact hhandles.flatMap.trans (by rw [reply_rejected hreq, List.append_nil])
  · rw [hcall] at h
    obtain rfl := Option.some.inj h
    exact ⟨⟨hs.recv, hs.cap, hs.send,
      ⟨⟨hhandles.congr rfl rfl rfl, hparses.congr rfl⟩, .inl hsize⟩⟩, .same trivial rfl howed.symm⟩

theorem Inv.handleEchoJob (hs : s.Inv) (hpoint : s.point = .handleEchoJob msg_ data)
    (found : Bool) :
    (s.handleEchoJob found msg_ data).Inv ∧
      s.Balances (.handleEchoJob found) (s.handleEchoJob found msg_ data) := by
  have hat := hs.point
  rw [hpoint] at hat
  obtain ⟨⟨hhandles, hparses⟩, hor⟩ := hat
  have howed : s.owed = s.given.dropLast.flatMap reply := by rw [owed, hpoint]
  rcases handleEchoJob_spec hs hparses found with ⟨hreq, h⟩ | ⟨-, h⟩ | ⟨hreq, b, hwf, hbytes, h⟩
  · rw [h]
    have hsize := hor.resolve_right hreq
    refine ⟨⟨hs.recv, hs.cap, hs.send, ⟨hhandles.congr rfl rfl rfl, hsize⟩⟩,
      .same trivial rfl ?_⟩
    rw [howed]
    exact hhandles.flatMap.trans (by rw [reply_rejected hreq, List.append_nil])
  · rw [h]
    exact ⟨hs, .same trivial rfl rfl⟩
  · rw [h]
    refine ⟨⟨hs.recv, hs.cap, hwf,
      ⟨⟨hhandles.congr rfl rfl rfl, hparses.congr rfl⟩, hreq⟩⟩,
      .inl ⟨trivial, echoResponse 0 (s.request msg_), ?_, ?_⟩⟩
    · rw [paid, paid, List.append_assoc, ← hbytes]
    · rw [howed, ← reply_echo hreq]
      exact hhandles.flatMap

theorem Inv.sendAsync (hs : s.Inv) (hpoint : s.point = .sendLoop msg_ data)
    (outcome : SendOutcome) :
    (s.sendAsync msg_ data outcome).Inv ∧
      s.Balances (.sendAsync outcome) (s.sendAsync msg_ data outcome) := by
  have hat := hs.point
  rw [hpoint] at hat
  obtain ⟨⟨hhandles, hparses⟩, hreq⟩ := hat
  have howed : s.owed = s.given.flatMap reply := by rw [owed, hpoint]
  unfold Session.sendAsync
  rcases turn_cases hs.send outcome with ⟨hsize, hturn⟩ | ⟨hsize, hstop, hturn⟩ |
    ⟨hsize, hstop, c', hturn, hwf, htaken⟩
  · rw [hturn]
    exact ⟨⟨hs.recv, hs.cap, hs.send, ⟨hhandles.congr rfl rfl rfl, hsize⟩⟩,
      .same (.inl hsize) rfl howed.symm⟩
  · rw [hturn]
    refine ⟨⟨hs.recv, hs.cap, hs.send,
      ⟨⟨hhandles.congr rfl rfl rfl, hparses.congr rfl⟩, .inr hreq⟩⟩, .inr ⟨?_, rfl, ?_⟩⟩
    · intro hkept
      exact hkept.elim hsize fun hgo => hgo hstop
    · rw [howed, hhandles.flatMap, reply_echo hreq, List.length_append, echoResponse_length hreq]
      exact Nat.lt_add_of_pos_right (by decide)
  · rw [hturn]
    refine ⟨⟨hs.recv, hs.cap, hwf, ?_⟩, .same (.inr hstop) ?_ rfl⟩
    · show AtPoint _ s.point
      rw [hpoint]
      exact ⟨⟨hhandles.congr rfl rfl rfl, hparses.congr rfl⟩, hreq⟩
    · rw [paid, paid, ← htaken, List.append_assoc]

theorem Inv.popMsg (hs : s.Inv) (hpoint : s.point = .popMsg msg_)
    (h : step s .popMsg = some s') : s'.Inv ∧ s.Balances .popMsg s' := by
  have hat := hs.point
  rw [hpoint] at hat
  obtain ⟨hhandles, hsize⟩ := hat
  have howed : s.owed = s.given.flatMap reply := by rw [owed, hpoint]
  simp only [step, hpoint] at h
  obtain rfl := Option.some.inj h
  have hle : msg_.count ≤ s.context.recvBuffer.size := by
    rw [← hs.recv.bytes_length]
    exact msgFraming.le hhandles.next
  obtain ⟨-, hbytes, hwf⟩ := pop_spec hs.recv hle
  refine ⟨⟨hwf, (pop_cap _ _).trans hs.cap, hs.send, ⟨?_, hsize⟩⟩, .same trivial rfl howed.symm⟩
  show msgFraming.Splits s.stored s.given (s.context.recvBuffer.pop msg_.count).1.bytes
  rw [hhandles.given, hbytes]
  exact hhandles.splits.snoc hhandles.next

/-- Every step keeps the framing, and pays what it owes unless `SendAsync` throws. -/
theorem step_inv (hs : s.Inv) (h : step s a = some s') : s'.Inv ∧ s.Balances a s' := by
  cases a with
  | recvAsync recved =>
    simp only [step] at h
    split at h
    · next hpoint =>
      split at h
      · obtain rfl := Option.some.inj h
        exact hs.recvAsync hpoint recved
      · cases h
    · cases h
  | getMsg =>
    simp only [step] at h
    split at h
    · next hpoint =>
      split at h
      · next hnone =>
        obtain rfl := Option.some.inj h
        exact hs.getMsg_none hpoint hnone
      · next n hn =>
        obtain rfl := Option.some.inj h
        exact hs.getMsg_some hpoint hn
    · cases h
  | handleReq =>
    cases hpoint : s.point with
    | handleReq msg_ => exact hs.handleReq hpoint h
    | _ =>
      simp only [step, hpoint] at h
      cases h
  | handleEchoJob found =>
    simp only [step] at h
    split at h
    · next hpoint =>
      obtain rfl := Option.some.inj h
      exact hs.handleEchoJob hpoint found
    · cases h
  | sendAsync outcome =>
    simp only [step] at h
    split at h
    · next hpoint =>
      obtain rfl := Option.some.inj h
      exact hs.sendAsync hpoint outcome
    · cases h
  | popMsg =>
    cases hpoint : s.point with
    | popMsg msg_ => exact hs.popMsg hpoint h
    | _ =>
      simp only [step, hpoint] at h
      cases h

/-! ## Runs -/

/-- What is paid is what is owed, as long as `SendAsync` does not throw. -/
theorem step_even (hs : s.Inv) (heven : s.paid = s.owed) (hkept : s.Kept a)
    (h : step s a = some s') : s'.paid = s'.owed := by
  rcases (step_inv hs h).2 with ⟨-, t, hpaid, howed⟩ | ⟨hno, -, -⟩
  · rw [hpaid, howed, heven]
  · exact absurd hkept hno

/-- There is never less paid than owed, and what is paid too much stays so. -/
theorem step_odd (hs : s.Inv) (h : step s a = some s') :
    (s.owed.length ≤ s.paid.length → s'.owed.length ≤ s'.paid.length) ∧
    (s.Odd → s'.Odd) ∧ (s.owed.length ≤ s.paid.length → ¬ s.Kept a → s'.Odd) := by
  unfold Odd
  rcases (step_inv hs h).2 with ⟨hkept, t, hpaid, howed⟩ | ⟨hno, hpaid, howed⟩
  · rw [hpaid, howed, List.length_append, List.length_append]
    exact ⟨fun hle => by omega, fun hlt => by omega, fun _ hno => absurd hkept hno⟩
  · rw [hpaid]
    exact ⟨fun hle => by omega, fun hlt => by omega, fun hle _ => by omega⟩

/-- The flow that waits has given out all frames, and has nothing left to send. -/
theorem Inv.waits (hs : s.Inv) (hwait : s.Waits) :
    (s.given = msgFraming.frames s.stored ∧ s.content = msgFraming.rest s.stored) ∧
      s.owed = s.given.flatMap reply ∧ s.paid = s.wire := by
  have hat := hs.point
  have key : ((msgFraming.Splits s.stored s.given s.content ∧
      msgFraming.next s.content = none) ∧ s.send.sendBuffer.size = 0) ∧
        s.owed = s.given.flatMap reply := by
    rcases hwait with hpoint | hpoint
    · rw [hpoint] at hat
      exact ⟨hat, by rw [owed, hpoint]⟩
    · rw [hpoint] at hat
      exact ⟨hat, by rw [owed, hpoint]⟩
  obtain ⟨⟨⟨hsplits, hnext⟩, hsize⟩, howed⟩ := key
  have hframes := hsplits.frames_eq
  rw [frames_of_none hnext, List.append_nil] at hframes
  refine ⟨⟨hframes.symm, ?_⟩, howed, ?_⟩
  · rw [hsplits.rest_eq, rest_of_none hnext]
  · rw [paid, bytes, hsize, List.take_zero, List.append_nil]

/-- While a stream of frames is arriving, the rest of it leaves room for what one `ReceiveAsync`
brings. -/
theorem rest_short {fs : List Bytes} {stream : Bytes} (hfs : ∀ f ∈ fs, IsFrame f)
    (hstream : stream <+: fs.flatten) :
    (msgFraming.rest stream).length ≤ recvBufferSize - maxSegmentSize := by
  obtain ⟨suf, hsuf⟩ := hstream
  have hcut : ([stream] ++ [suf]).flatten = fs.flatten := by
    rw [List.singleton_append, List.flatten_cons, List.flatten_singleton]
    exact hsuf
  obtain ⟨-, -, hpart⟩ := frames_of_cut (fun f hf => (hfs f hf).delimits) rfl [stream] [suf] hcut
  rw [List.flatten_singleton] at hpart
  rcases hpart with hrest | ⟨f, hf, -, hlt⟩
  · rw [hrest]
    exact Nat.zero_le _
  · exact Nat.le_trans (Nat.le_of_lt hlt) (hfs f hf).le

/-- What the client gets does not change what has arrived. -/
theorem handleEchoJob_arrived (s : Session) (found : Bool) (msg_ data : ArraySegment) :
    (s.handleEchoJob found msg_ data).stored = s.stored ∧
      (s.handleEchoJob found msg_ data).received = s.received := by
  simp only [Session.handleEchoJob]
  split
  · exact ⟨rfl, rfl⟩
  split
  · exact ⟨rfl, rfl⟩
  split
  · exact ⟨rfl, rfl⟩
  · exact ⟨rfl, rfl⟩

theorem sendAsync_arrived (s : Session) (msg_ data : ArraySegment) (outcome : SendOutcome) :
    (s.sendAsync msg_ data outcome).stored = s.stored ∧
      (s.sendAsync msg_ data outcome).received = s.received := by
  simp only [Session.sendAsync]
  split
  · exact ⟨rfl, rfl⟩
  · exact ⟨rfl, rfl⟩
  · exact ⟨rfl, rfl⟩

/-- What has arrived is a part of a stream of frames, and all of it has been stored. -/
def Whole (fs : List Bytes) (s : Session) : Prop :=
  s.received <+: fs.flatten → s.stored = s.received

theorem Whole.congr {fs : List Bytes} (h : s.Whole fs)
    (harrived : s'.stored = s.stored ∧ s'.received = s.received) : s'.Whole fs := by
  rw [Whole, harrived.1, harrived.2]
  exact h

/-- No byte of a stream of frames is lost. -/
theorem step_whole {fs : List Bytes} (hfs : ∀ f ∈ fs, IsFrame f) (hs : s.Inv)
    (hwhole : s.Whole fs) (h : step s a = some s') : s'.Whole fs := by
  cases a with
  | recvAsync recved =>
    simp only [step] at h
    split at h
    · next hpoint =>
      split at h
      · next hlen =>
        obtain rfl := Option.some.inj h
        rcases recvAsync_spec hs recved with ⟨c, -, h⟩ | ⟨c, msg, rfl, -, -, hfull, h⟩ |
          ⟨c, msg, rfl, -, -, -, h⟩
        · rw [h]
          exact hwhole
        · intro hprefix
          rw [h] at hprefix
          have hreceived := (List.prefix_append s.received msg).trans hprefix
          have hcontent := (hs.waits (.inl hpoint)).1.2
          rw [hwhole hreceived] at hcontent
          have hshort := rest_short hfs hreceived
          rw [← hcontent] at hshort
          simp only [Option.getD_some, recvBufferSize, sendBufferSize, maxSegmentSize] at *
          omega
        · rw [h]
          intro hprefix
          have hreceived := (List.prefix_append s.received msg).trans hprefix
          show s.stored ++ msg = s.received ++ msg
          rw [hwhole hreceived]
      · cases h
    · cases h
  | getMsg =>
    simp only [step] at h
    split at h
    · split at h
      · exact Option.some.inj h ▸ hwhole
      · exact Option.some.inj h ▸ hwhole
    · cases h
  | handleReq =>
    simp only [step] at h
    split at h
    · split at h
      · exact Option.some.inj h ▸ hwhole
      · exact Option.some.inj h ▸ hwhole
      · exact Option.some.inj h ▸ hwhole
    · cases h
  | handleEchoJob found =>
    simp only [step] at h
    split at h
    · obtain rfl := Option.some.inj h
      exact hwhole.congr (handleEchoJob_arrived s found _ _)
    · cases h
  | sendAsync outcome =>
    simp only [step] at h
    split at h
    · obtain rfl := Option.some.inj h
      exact hwhole.congr (sendAsync_arrived s _ _ outcome)
    · cases h
  | popMsg =>
    simp only [step] at h
    split at h
    · exact Option.some.inj h ▸ hwhole
    · cases h

/-- For a stream of frames of 4 bytes to 15 KiB, however it arrives: whenever the flow waits for
the client or has left, the messages given out are the frames that are complete, and the client
has got the replies to them, in order and once, if and only if `SendAsync` has never
thrown something else than a `SocketException`. -/
theorem replies_iff {fs : List Bytes} (hfs : ∀ f ∈ fs, IsFrame f) {acts : List SessionAct}
    (hr : run step init acts = some s) (hreceived : s.received <+: fs.flatten)
    (hwait : s.Waits) :
    s.given = completed fs s.received.length ∧
      (s.wire = (completed fs s.received.length).flatMap reply ↔ Meets step Kept init acts) := by
  have hinv : s.Inv ∧ s.Whole fs := run_stable (I := fun s => s.Inv ∧ s.Whole fs)
    (fun _ _ _ hs h => ⟨(step_inv hs.1 h).1, step_whole hfs hs.1 hs.2 h⟩)
    ⟨inv_init, fun _ => rfl⟩ hr
  obtain ⟨hs, hwhole⟩ := hinv
  obtain ⟨⟨hgiven, -⟩, howed, hpaid⟩ := hs.waits hwait
  have hcompleted : s.given = completed fs s.received.length := by
    obtain ⟨suf, hsuf⟩ := hreceived
    rw [hgiven, hwhole ⟨suf, hsuf⟩]
    conv_lhs => rw [show s.received = fs.flatten.take s.received.length by
      rw [← hsuf, List.take_left]]
    exact frames_take_flatten (fun f hf => (hfs f hf).delimits) rfl _
  refine ⟨hcompleted, ?_⟩
  rw [← hcompleted, ← howed, ← hpaid]
  constructor
  · intro heven
    refine meets_of_unmarked (I := fun s => s.Inv ∧ s.owed.length ≤ s.paid.length) (M := Odd)
      (fun _ _ _ hs h => ⟨(step_inv hs.1 h).1, (step_odd hs.1 h).1 hs.2⟩)
      (fun _ _ _ hs hno h => (step_odd hs.1 h).2.2 hs.2 hno)
      (fun _ _ _ hs hodd h => (step_odd hs.1 h).2.1 hodd) ⟨inv_init, Nat.le_refl 0⟩ hr ?_
    rw [Odd, heven]
    exact Nat.lt_irrefl _
  · intro hkept
    exact (run_invariant (I := fun s => s.Inv ∧ s.paid = s.owed)
      (fun _ _ _ hs hkept h => ⟨(step_inv hs.1 h).1, step_even hs.1 hs.2 hkept h⟩)
      ⟨inv_init, rfl⟩ hkept hr).2

/-- The first reply breaks off after fifty bytes, since the socket has been disposed of. -/
def brokenOff : List SessionAct :=
  [.recvAsync (some (EchoState.echoMsg 7)), .getMsg, .handleReq,
    .handleEchoJob true, .sendAsync (.sent 50), .sendAsync (.threw .objectDisposedException),
    .handleEchoJob true, .sendAsync (.sent 1024), .sendAsync (.sent 1024), .popMsg, .getMsg]

/-- It is sent twice. -/
theorem replies_iff_broken : ∃ s, run step init brokenOff = some s ∧
    s.wire ≠ (completed [EchoState.echoMsg 7] 96).flatMap reply := by
  have hend : (run step init brokenOff).map (fun s =>
      (decide (s.received = EchoState.echoMsg 7), s.point matches .recvAsync)) =
      some (true, true) := by
    decide +kernel
  obtain ⟨s, hs, hsame⟩ := Option.map_eq_some_iff.mp hend
  obtain ⟨hreceived, hpoint⟩ := Prod.mk.inj hsame
  have hreceived : s.received = EchoState.echoMsg 7 := of_decide_eq_true hreceived
  have hwait : s.Waits := by
    cases hp : s.point with
    | recvAsync => exact .inl hp
    | _ =>
      rw [hp] at hpoint
      cases hpoint
  have hfs : ∀ f ∈ [EchoState.echoMsg 7], IsFrame f := by
    intro f hf
    obtain rfl := List.mem_singleton.mp hf
    exact ⟨by decide, by decide, by decide⟩
  have hprefix : s.received <+: [EchoState.echoMsg 7].flatten := by
    rw [hreceived, List.flatten_singleton]
  have hlength : (EchoState.echoMsg 7).length = 96 := by decide
  have hiff := (replies_iff hfs hs hprefix hwait).2
  rw [hreceived, hlength] at hiff
  exact ⟨s, hs, fun hwire => absurd (hiff.mp hwire) (by decide +kernel)⟩

end Session

end CSServer
