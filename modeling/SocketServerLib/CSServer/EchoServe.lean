import SocketServerLib.CSServer.EchoSession

/-
  The flow of `EchoSession` with its answers given: what it does between two chunks that
  `ReceiveAsync` brings.

  `serve` stores a chunk and takes the steps of the flow until it waits for the next one.

  What is proved:
    1. `Serving.advances` — the flow waits, or its next step brings it closer to the point
       where it does; `toGo` is the measure.
    2. `serve_exact` — where every call of `SendAsync` takes some bytes, `serve` ends for each
       chunk of a stream of frames, and the client has its replies then.

  What is assumed: what `EchoSession` assumes, and `m_Clients` has the client.
-/
namespace CSServer
open RacingGameServer (Bytes)
open PrefixFraming ChunkedFraming SlideBuffer
open SendContext (Stops)
open RecvState (IsFrame)

namespace Session

/-- The step that the flow is at, where it does not wait for the client. -/
def own (s : Session) (outcome : SendOutcome) : Option Session :=
  match s.point with
  | .recvAsync | .left => none
  | .getMsg => step s .getMsg
  | .handleReq _ => step s .handleReq
  | .handleEchoJob _ _ => step s (.handleEchoJob true)
  | .sendLoop _ _ => step s (.sendAsync outcome)
  | .popMsg _ => step s .popMsg

def turn (s : Session) (outcome : SendOutcome) : Session ⊕ Session :=
  match s.own outcome with
  | none => .inl s
  | some s' => .inr s'

/-- `ReceiveAsync` brings a chunk, and the flow goes on until it waits for the next one. The
answers of `SendAsync` are a stream for each chunk. -/
def serve (answers : Nat → Nat → SendOutcome) (i : Nat) (s : Session) (chunk : Bytes) :
    Option Session :=
  (step s (.recvAsync (some chunk))).bind
    (AnsweredLoop.loop turn (200 * recvBufferSize + 2) (answers i))

/-- Some bytes are taken. -/
def Takes (outcome : SendOutcome) : Prop := ∃ room, outcome = .sent room ∧ 0 < room

/-- The socket is there, and a reply has room in the send buffer when its job begins. -/
structure Ready (s : Session) : Prop where
  socket : s.send.socket = true
  cap : s.send.sendBuffer.cap = sendBufferSize
  short : s.send.sendBuffer.size ≤ 96
  empty : ∀ msg_ data, s.point = .handleEchoJob msg_ data → s.send.sendBuffer.size = 0

/-- The steps that are left until the flow waits, at most. -/
def toGo (s : Session) : Nat :=
  match s.point with
  | .recvAsync | .left => 0
  | .getMsg => 200 * s.content.length + 1
  | .handleReq _ => 200 * s.content.length - 96
  | .handleEchoJob _ _ => 200 * s.content.length - 97
  | .sendLoop _ _ => 200 * s.content.length - 195 + s.send.sendBuffer.size
  | .popMsg _ => 200 * s.content.length - 196

variable {s s' : Session} {msg_ data : ArraySegment} {outcome : SendOutcome}

/-- What the flow does next is a step that keeps the send buffer ready and comes closer to the
point where it waits. -/
structure Advances (s : Session) (outcome : SendOutcome) (s' : Session) : Prop where
  own : s.own outcome = some s'
  step : ∃ a, step s a = some s' ∧ s.Kept a
  ready : s'.Ready
  toGo : s'.toGo < s.toGo
  received : s'.received = s.received
  stays : s'.point ≠ .left

theorem Handles.content_pos (h : s.Handles msg_) : 0 < s.content.length :=
  Nat.lt_of_lt_of_le (msgFraming.pos h.next) (msgFraming.le h.next)

theorem advances_getMsg (hready : s.Ready) (hpoint : s.point = .getMsg) :
    ∃ s', s.Advances outcome s' := by
  have hown : s.own outcome = step s .getMsg := by rw [own, hpoint]
  have hto : s.toGo = 200 * s.content.length + 1 := by rw [toGo, hpoint]
  cases hmsg : s.context.recvBuffer.getMsg with
  | none =>
    have hstep : step s .getMsg = some { s with point := .recvAsync } := by
      simp only [step, hpoint, hmsg]
    refine ⟨_, hown.trans hstep, ⟨_, hstep, trivial⟩,
      ⟨hready.socket, hready.cap, hready.short, fun _ _ h => by cases h⟩, ?_, rfl,
      fun h => by cases h⟩
    rw [hto]
    exact Nat.succ_pos _
  | some n =>
    have hstep : step s .getMsg = some { s with
        point := .handleReq { offset := 0, count := n }
        given := s.given ++ [ArraySegment.read { offset := 0, count := n } s.array] } := by
      simp only [step, hpoint, hmsg]
    refine ⟨_, hown.trans hstep, ⟨_, hstep, trivial⟩,
      ⟨hready.socket, hready.cap, hready.short, fun _ _ h => by cases h⟩, ?_, rfl,
      fun h => by cases h⟩
    rw [hto]
    show 200 * s.content.length - 96 < 200 * s.content.length + 1
    omega

theorem advances_handleReq (hs : s.Inv) (hready : s.Ready) (hpoint : s.point = .handleReq msg_) :
    ∃ s', s.Advances outcome s' := by
  have hown : s.own outcome = step s .handleReq := by rw [own, hpoint]
  have hto : s.toGo = 200 * s.content.length - 96 := by rw [toGo, hpoint]
  have hat := hs.point
  rw [hpoint] at hat
  obtain ⟨hhandles, hsize⟩ := hat
  have hpos := hhandles.content_pos
  rcases handleReq_spec hs hhandles with ⟨hreject, -⟩ | ⟨data, hcall, -⟩
  · have hstep : step s .handleReq = some { s with point := .popMsg msg_ } := by
      simp only [step, hpoint, hreject]
    refine ⟨_, hown.trans hstep, ⟨_, hstep, trivial⟩,
      ⟨hready.socket, hready.cap, hready.short, fun _ _ h => by cases h⟩, ?_, rfl,
      fun h => by cases h⟩
    rw [hto]
    show 200 * s.content.length - 196 < 200 * s.content.length - 96
    omega
  · have hstep : step s .handleReq = some { s with point := .handleEchoJob msg_ data } := by
      simp only [step, hpoint, hcall]
    refine ⟨_, hown.trans hstep, ⟨_, hstep, trivial⟩,
      ⟨hready.socket, hready.cap, hready.short, fun _ _ _ => hsize⟩, ?_, rfl, fun h => by cases h⟩
    rw [hto]
    show 200 * s.content.length - 97 < 200 * s.content.length - 96
    omega

/-- A reply has room in the empty send buffer. -/
theorem handleEchoJob_ready (hs : s.Inv) (hready : s.Ready) (hparses : s.Parses msg_ data)
    (hempty : s.send.sendBuffer.size = 0) (hreq : EchoReq (s.request msg_)) :
    ∃ b : SlideBuffer, b.cap = sendBufferSize ∧ b.size = 96 ∧
      s.handleEchoJob true msg_ data =
        { s with send := { s.send with sendBuffer := b }, point := .sendLoop msg_ data } := by
  have hlen := echoResponse_length hreq
  have hfit : s.send.sendBuffer.size + 96 ≤ s.send.sendBuffer.cap := by
    rw [hempty, hready.cap]
    decide
  obtain ⟨hok, hbytes, hwf⟩ := enqueue_fits hs.send (Nat.le_of_eq hlen.symm) hfit
  refine ⟨(s.send.sendBuffer.enqueue (echoResponse 0 (s.request msg_)) 96).1, ?_, ?_, ?_⟩
  · rw [enqueue_cap]
    exact hready.cap
  · rw [← hwf.bytes_length, hbytes, List.length_append, hs.send.bytes_length, hempty,
      List.length_take, hlen]
    rfl
  · unfold Session.handleEchoJob
    rcases handleEchoJob_cases hparses.read hparses.header hparses.type with ⟨-, hno⟩ | ⟨hsome, -⟩
    · exact absurd hreq hno
    · rw [hsome]
      simp only [hready.socket, hlen, hok, Bool.true_eq_false, or_self, if_false]

theorem advances_handleEchoJob (hs : s.Inv) (hready : s.Ready)
    (hpoint : s.point = .handleEchoJob msg_ data) : ∃ s', s.Advances outcome s' := by
  have hown : s.own outcome = step s (.handleEchoJob true) := by rw [own, hpoint]
  have hto : s.toGo = 200 * s.content.length - 97 := by rw [toGo, hpoint]
  have hstep : step s (.handleEchoJob true) = some (s.handleEchoJob true msg_ data) := by
    simp only [step, hpoint]
  have hat := hs.point
  rw [hpoint] at hat
  obtain ⟨⟨hhandles, hparses⟩, -⟩ := hat
  have hpos := hhandles.content_pos
  have hempty := hready.empty msg_ data hpoint
  by_cases hreq : EchoReq (s.request msg_)
  · obtain ⟨b, hcap, hsize, h⟩ := handleEchoJob_ready hs hready hparses hempty hreq
    rw [h] at hstep
    refine ⟨_, hown.trans hstep, ⟨_, hstep, trivial⟩,
      ⟨hready.socket, hcap, Nat.le_of_eq hsize, fun _ _ h => by cases h⟩, ?_, rfl,
      fun h => by cases h⟩
    rw [hto]
    show 200 * s.content.length - 195 + b.size < 200 * s.content.length - 97
    omega
  · rcases handleEchoJob_spec hs hparses true with ⟨-, h⟩ | ⟨hyes, -⟩ | ⟨hyes, -⟩
    · rw [h] at hstep
      refine ⟨_, hown.trans hstep, ⟨_, hstep, trivial⟩,
        ⟨hready.socket, hready.cap, hready.short, fun _ _ h => by cases h⟩, ?_, rfl,
        fun h => by cases h⟩
      rw [hto]
      show 200 * s.content.length - 196 < 200 * s.content.length - 97
      omega
    · exact absurd hyes hreq
    · exact absurd hyes hreq

/-- A call of `SendAsync` that takes some bytes makes the send buffer shorter. -/
theorem turn_takes {c : SendContext} (hsize : c.sendBuffer.size ≠ 0)
    (hout : Takes outcome) : ∃ c', c.turn outcome = .inr c' ∧ c'.socket = c.socket ∧
      c'.sendBuffer.cap = c.sendBuffer.cap ∧ c'.sendBuffer.size < c.sendBuffer.size := by
  obtain ⟨room, rfl, hroom⟩ := hout
  have hturn : c.turn (.sent room) = .inr (c.popSent (min room
      (if c.sendBuffer.size > maxSegmentSize then maxSegmentSize else c.sendBuffer.size))) :=
    if_neg hsize
  have hseg : 0 < maxSegmentSize := by decide
  have hle : min room (if c.sendBuffer.size > maxSegmentSize then maxSegmentSize
      else c.sendBuffer.size) ≤ c.sendBuffer.size := by
    split <;> omega
  have hpos : 0 < min room (if c.sendBuffer.size > maxSegmentSize then maxSegmentSize
      else c.sendBuffer.size) := by
    split <;> omega
  refine ⟨_, hturn, ?_, ?_, ?_⟩
  · rw [SendContext.popSent, if_pos hpos]
  · rw [SendContext.popSent, if_pos hpos]
    exact pop_cap _ _
  · rw [SendContext.popSent_size hle]
    omega

theorem advances_sendLoop (hs : s.Inv) (hready : s.Ready)
    (hpoint : s.point = .sendLoop msg_ data) (hout : Takes outcome) :
    ∃ s', s.Advances outcome s' := by
  have hown : s.own outcome = step s (.sendAsync outcome) := by rw [own, hpoint]
  have hto : s.toGo = 200 * s.content.length - 195 + s.send.sendBuffer.size := by
    rw [toGo, hpoint]
  have hat := hs.point
  rw [hpoint] at hat
  obtain ⟨⟨hhandles, -⟩, -⟩ := hat
  have hpos := hhandles.content_pos
  by_cases hsize : s.send.sendBuffer.size = 0
  · have hturn : s.send.turn outcome = .inl (true, s.send) := if_pos hsize
    have hstep : step s (.sendAsync outcome) = some { s with point := .popMsg msg_ } := by
      simp only [step, hpoint, sendAsync, hturn]
    refine ⟨_, hown.trans hstep, ⟨_, hstep, .inl hsize⟩,
      ⟨hready.socket, hready.cap, hready.short, fun _ _ h => by cases h⟩, ?_, rfl,
      fun h => by cases h⟩
    rw [hto]
    show 200 * s.content.length - 196 < 200 * s.content.length - 195 + s.send.sendBuffer.size
    omega
  · obtain ⟨c', hturn, hsocket, hcap, hless⟩ := turn_takes hsize hout
    have hgoes : ¬ Stops outcome := by
      obtain ⟨room, rfl, -⟩ := hout
      exact id
    have hstep : step s (.sendAsync outcome) =
        some { s with send := c', wire := s.wire ++ s.send.bytesTaken outcome } := by
      simp only [step, hpoint, sendAsync, hturn]
    refine ⟨_, hown.trans hstep, ⟨_, hstep, .inr hgoes⟩,
      ⟨hsocket.trans hready.socket, hcap.trans hready.cap, ?_, ?_⟩, ?_, rfl, ?_⟩
    · exact Nat.le_trans (Nat.le_of_lt hless) hready.short
    · intro m d h
      cases hpoint.symm.trans h
    · rw [hto]
      show toGo { s with send := c', wire := _ } < _
      simp only [toGo, hpoint]
      show 200 * s.content.length - 195 + c'.sendBuffer.size < _
      omega
    · intro h
      cases hpoint.symm.trans h

theorem advances_popMsg (hs : s.Inv) (hready : s.Ready) (hpoint : s.point = .popMsg msg_) :
    ∃ s', s.Advances outcome s' := by
  have hown : s.own outcome = step s .popMsg := by rw [own, hpoint]
  have hto : s.toGo = 200 * s.content.length - 196 := by rw [toGo, hpoint]
  have hat := hs.point
  rw [hpoint] at hat
  obtain ⟨hhandles, -⟩ := hat
  have hpos := msgFraming.pos hhandles.next
  have hle := msgFraming.le hhandles.next
  have hsize : msg_.count ≤ s.context.recvBuffer.size := by
    rw [← hs.recv.bytes_length]
    exact hle
  obtain ⟨-, hbytes, -⟩ := pop_spec hs.recv hsize
  have hstep : step s .popMsg = some { s with
      context := { s.context with recvBuffer := (s.context.recvBuffer.pop msg_.count).1 }
      point := .getMsg } := by
    simp only [step, hpoint]
  refine ⟨_, hown.trans hstep, ⟨_, hstep, trivial⟩,
    ⟨hready.socket, hready.cap, hready.short, fun _ _ h => by cases h⟩, ?_, rfl,
    fun h => by cases h⟩
  rw [hto]
  show 200 * (s.context.recvBuffer.pop msg_.count).1.bytes.length + 1 < _
  rw [hbytes, List.length_drop]
  have hcontent : s.content.length = s.context.recvBuffer.bytes.length := rfl
  omega

/-- What holds all along while the client is served. -/
structure Serving (fs : List Bytes) (s : Session) : Prop where
  inv : s.Inv
  even : s.paid = s.owed
  whole : s.Whole fs
  ready : s.Ready

theorem serving_init (fs : List Bytes) : Serving fs init where
  inv := inv_init
  even := rfl
  whole _ := rfl
  ready := ⟨rfl, rfl, Nat.zero_le _, fun _ _ h => by cases h⟩

/-- The flow waits, or goes on towards the point where it does. -/
theorem Serving.advances {fs : List Bytes} (hs : s.Serving fs) (hout : Takes outcome) :
    s.Waits ∨ ∃ s', s.Advances outcome s' := by
  cases hpoint : s.point with
  | recvAsync => exact .inl (.inl hpoint)
  | left => exact .inl (.inr hpoint)
  | getMsg => exact .inr (advances_getMsg hs.ready hpoint)
  | handleReq msg_ => exact .inr (advances_handleReq hs.inv hs.ready hpoint)
  | handleEchoJob msg_ data => exact .inr (advances_handleEchoJob hs.inv hs.ready hpoint)
  | sendLoop msg_ data => exact .inr (advances_sendLoop hs.inv hs.ready hpoint hout)
  | popMsg msg_ => exact .inr (advances_popMsg hs.inv hs.ready hpoint)

theorem Serving.next {fs : List Bytes} (hfs : ∀ f ∈ fs, IsFrame f) (hs : s.Serving fs)
    (h : s.Advances outcome s') : s'.Serving fs := by
  obtain ⟨a, hstep, hkept⟩ := h.step
  exact ⟨(step_inv hs.inv hstep).1, step_even hs.inv hs.even hkept hstep,
    step_whole hfs hs.inv hs.whole hstep, h.ready⟩

theorem toGo_le (hs : s.Inv) (hready : s.Ready) : s.toGo < 200 * recvBufferSize + 2 := by
  have hlen : s.content.length ≤ recvBufferSize := by
    rw [content, hs.recv.bytes_length, ← hs.cap]
    exact hs.recv.size_le
  have hshort := hready.short
  have hbuffer : recvBufferSize = 16384 := rfl
  unfold toGo
  split <;> omega

/-- Each call of `SendAsync` that is made takes some bytes, so that the flow comes back. -/
theorem Serving.comesBack {fs : List Bytes} (hfs : ∀ f ∈ fs, IsFrame f) (hs : s.Serving fs)
    (hstays : s.point ≠ .left) {answers : Nat → SendOutcome} (hanswers : ∀ n, Takes (answers n)) :
    ∃ s', AnsweredLoop.loop turn (200 * recvBufferSize + 2) answers s = some s' ∧
      s'.Serving fs ∧ s'.point = .recvAsync ∧ s'.received = s.received := by
  refine AnsweredLoop.loop_of_measure (A := Takes) (μ := toGo)
    (J := fun t => t.Serving fs ∧ t.point ≠ .left ∧ t.received = s.received) ?_
    ⟨hs, hstays, rfl⟩ hanswers (toGo_le hs.inv hs.ready)
  intro t a ht ha
  obtain ⟨hserving, hstays, hreceived⟩ := ht
  rcases hserving.advances ha with hwait | ⟨t', hadvances⟩
  · have hpoint : t.point = .recvAsync := hwait.resolve_right hstays
    have hown : t.own a = none := by rw [own, hpoint]
    refine .inl ⟨t, ?_, hserving, hpoint, hreceived⟩
    rw [turn, hown]
  · refine .inr ⟨t', ?_, ⟨hserving.next hfs hadvances, hadvances.stays,
      hadvances.received.trans hreceived⟩, hadvances.toGo⟩
    rw [turn, hadvances.own]

/-- A chunk of the stream is stored. -/
theorem Serving.recvAsync {fs : List Bytes} (hfs : ∀ f ∈ fs, IsFrame f) (hs : s.Serving fs)
    (hpoint : s.point = .recvAsync) {chunk : Bytes} (hpos : 0 < chunk.length)
    (hlen : chunk.length ≤ maxSegmentSize) :
    ∃ s', step s (.recvAsync (some chunk)) = some s' ∧ s'.Serving fs ∧ s'.point = .getMsg ∧
      s'.received = s.received ++ chunk := by
  have hstep : Session.step s (.recvAsync (some chunk)) = some (s.recvAsync (some chunk)) := by
    simp only [Session.step, hpoint, Option.getD_some, if_pos hlen]
  have hgoes : (s.recvAsync (some chunk)).point = .getMsg ∧
      (s.recvAsync (some chunk)).send = s.send ∧
      (s.recvAsync (some chunk)).received = s.received ++ chunk := by
    have hne : ¬ chunk.length = 0 := by omega
    simp only [Session.recvAsync, RecvContext.recvAsync, if_neg hne, Bool.true_eq_false, if_false,
      Option.getD_some, and_self]
  obtain ⟨hpoint', hsend, hreceived⟩ := hgoes
  have hkept : s.Kept (.recvAsync (some chunk)) := trivial
  refine ⟨_, hstep, ⟨(step_inv hs.inv hstep).1, step_even hs.inv hs.even hkept hstep,
    step_whole hfs hs.inv hs.whole hstep, ?_⟩, hpoint', hreceived⟩
  refine ⟨?_, ?_, ?_, fun m d h => by cases hpoint'.symm.trans h⟩
  · rw [hsend]
    exact hs.ready.socket
  · rw [hsend]
    exact hs.ready.cap
  · rw [hsend]
    exact hs.ready.short

/-- Where every call of `SendAsync` takes some bytes, each chunk of a stream of frames is served
until the flow waits for the next, and the client has then got the replies to all frames that are
complete, however `ReceiveAsync` and `SendAsync` cut what they carry. -/
theorem serve_exact {fs cs : List Bytes} (hfs : ∀ f ∈ fs, IsFrame f)
    (hcut : cs.flatten = fs.flatten)
    (hlen : ∀ c ∈ cs, 0 < c.length ∧ c.length ≤ maxSegmentSize)
    {answers : Nat → Nat → SendOutcome} (hanswers : ∀ i n, Takes (answers i n))
    (pre suf : List Bytes) (hcs : pre ++ suf = cs) :
    ∃ s, receiveAll (serve answers) 0 init pre = some s ∧ s.point = .recvAsync ∧
      s.wire = (completed fs pre.flatten.length).flatMap reply ∧
      s.send.sendBuffer.size = 0 := by
  have hserved : ∃ s, receiveAll (serve answers) 0 init pre = some s ∧ s.Serving fs ∧
      s.point = .recvAsync ∧ s.received = pre.flatten := by
    induction pre using List.reverseRecOn generalizing suf with
    | nil => exact ⟨init, rfl, serving_init fs, rfl, rfl⟩
    | append_singleton pre c ih =>
      obtain ⟨s, hs, hserving, hpoint, hreceived⟩ := ih (c :: suf) (by rw [← hcs]; simp)
      obtain ⟨hpos, hshort⟩ := hlen c (by rw [← hcs]; simp)
      obtain ⟨s₁, hstep, hserving₁, hpoint₁, hreceived₁⟩ :=
        hserving.recvAsync hfs hpoint hpos hshort
      obtain ⟨s₂, hloop, hserving₂, hpoint₂, hreceived₂⟩ := hserving₁.comesBack hfs
        (by rw [hpoint₁]; exact fun h => by cases h) (hanswers (0 + pre.length))
      refine ⟨s₂, ?_, hserving₂, hpoint₂, ?_⟩
      · rw [receiveAll_snoc, hs, Option.bind_some, serve, hstep, Option.bind_some]
        exact hloop
      · rw [hreceived₂, hreceived₁, hreceived, List.flatten_append, List.flatten_singleton]
  obtain ⟨s, hs, hserving, hpoint, hreceived⟩ := hserved
  have hprefix : s.received <+: fs.flatten := by
    rw [hreceived, ← hcut, ← hcs, List.flatten_append]
    exact List.prefix_append _ _
  obtain ⟨⟨hgiven, -⟩, howed, hpaid⟩ := hserving.inv.waits (.inl hpoint)
  have hsize := hserving.inv.point
  rw [hpoint] at hsize
  refine ⟨s, hs, hpoint, ?_, hsize.2⟩
  rw [← hpaid, hserving.even, howed, hgiven, hserving.whole hprefix, hreceived]
  congr 1
  exact (frames_of_cut (fun f hf => (hfs f hf).delimits) rfl pre suf (by rw [hcs, hcut])).1

/-- Two requests in three chunks; a call takes three bytes. -/
theorem serve_exact_two : ∃ s, receiveAll (serve fun _ _ => .sent 3) 0 init
    [(EchoState.echoMsg 0).take 5,
      (EchoState.echoMsg 0).drop 5 ++ (EchoState.echoMsg 1).take 90] = some s ∧
    s.wire = (completed [EchoState.echoMsg 0, EchoState.echoMsg 1] 186).flatMap reply := by
  have hfs : ∀ f ∈ [EchoState.echoMsg 0, EchoState.echoMsg 1], IsFrame f := by
    intro f hf
    simp only [List.mem_cons, List.not_mem_nil, or_false] at hf
    rcases hf with rfl | rfl
    · exact ⟨by decide, by decide, by decide⟩
    · exact ⟨by decide, by decide, by decide⟩
  have hanswers : ∀ i n : Nat, Takes ((fun _ _ => .sent 3 : Nat → Nat → SendOutcome) i n) :=
    fun _ _ => ⟨3, rfl, by decide⟩
  obtain ⟨s, hs, -, hwire, -⟩ := serve_exact hfs (by decide +kernel) (by decide +kernel) hanswers
    [(EchoState.echoMsg 0).take 5,
      (EchoState.echoMsg 0).drop 5 ++ (EchoState.echoMsg 1).take 90]
    [(EchoState.echoMsg 1).drop 90] rfl
  exact ⟨s, hs, hwire⟩

end Session

end CSServer
