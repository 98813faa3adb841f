import SocketServerLib.Lib.LabelledRun
import SocketServerLib.RacingGameServer.SlideBuffer
import SocketServerLib.IOCPServer.Job

/-
  The outgoing stream of one connection: `SendMsg` calls, and the SEND entries that
  `WorkerThread` dequeues.

  `m_SendOverlapped.m_wsaBuf.len` is the length of the last post and doubles as the
  in-flight flag (`sendLen`). `post` is what a `WSASend` call answers: `true` for success or
  pending. `outstanding` lists the bytes of the posts not completed yet; `accepted` are the
  bytes of the packets `SendMsg` returned true for, `transferred` those the entries report,
  `refused` what the buffer held before and after each `SendMsg` that returned false.

  What is proved:
    1. `transferred_in_order` — the transferred bytes are a prefix of the accepted ones, and a
       refused packet is not kept, as long as the post of a packet on an idle connection
       succeeds and an entry reports the length that `SendCompleted` pops.
    2. `sendMsg_keeps_refused`, `partial_loses`, `retry_repeats` — what goes wrong otherwise.
    3. `refused_is_kept` — a run that refuses a packet and keeps it.

  What is assumed: a `SendMsg` and the handling of an entry are one step each, and `CopyMemory`
  copies its source as it was before the call.
-/
namespace IOCPServer
open RacingGameServer (Bytes SlideBuffer)
open LabelledRun

def maxSendSlideBufferSize : Nat := maxSockbuf * 32

/-- A packet built by `Init`: it has something in it, and at most `PACKET_SIZE` bytes. -/
structure PacketData where
  bytes : Bytes
  size_pos : 0 < bytes.length
  size_le : bytes.length ≤ packetSize

structure Connection where
  sendBuffer : SlideBuffer
  sendLen : Nat
  isConnected : Bool

namespace Connection

/-- A connection just accepted. -/
def connected : Connection :=
  { sendBuffer := .init maxSendSlideBufferSize, sendLen := 0, isConnected := true }

/-- The length that `SendIO` posts. -/
def datasize (c : Connection) : Nat :=
  if c.sendBuffer.size > maxSockbuf then maxSockbuf else c.sendBuffer.size

/-- The last component is what was posted, if `WSASend` took it. -/
def sendIO (c : Connection) (post : Bool) : Connection × Bool × List Bytes :=
  ({ c with sendLen := c.datasize }, post,
    if post = true then [c.sendBuffer.data.take c.datasize] else [])

/-- `pData_` is `none` for a null pointer. -/
def sendMsg (c : Connection) (pData_ : Option PacketData) (post : Bool) :
    Connection × Bool × List Bytes :=
  match pData_ with
  | none => (c, false, [])
  | some p =>
    if c.isConnected = false then (c, false, [])
    else
      let r := c.sendBuffer.enqueue (some p.bytes) p.bytes.length
      if r.2 = false then ({ c with sendBuffer := r.1 }, false, [])
      else if c.sendLen = 0 then sendIO { c with sendBuffer := r.1 } post
      else ({ c with sendBuffer := r.1 }, true, [])

def reSend (c : Connection) (post : Bool) : Connection × Bool × List Bytes := c.sendIO post

/-- `SendCompleted` up to its test. -/
def popped (c : Connection) : Connection :=
  { c with sendBuffer := (c.sendBuffer.pop c.sendLen).1, sendLen := 0 }

def sendCompleted (c : Connection) (post : Bool) : Connection × List Bytes :=
  if c.popped.sendBuffer.isEmpty = true then (c.popped, [])
  else (( c.popped.sendIO post).1, ( c.popped.sendIO post).2.2)

/-- The part of `Init` (run by `ResetConnection`) that touches these fields. -/
def reset (c : Connection) : Connection :=
  { c with isConnected := false, sendBuffer := c.sendBuffer.clear }

/-- The packet fits into what is free of the buffer. -/
def Fits (c : Connection) (p : PacketData) : Prop :=
  c.sendBuffer.size + p.bytes.length ≤ c.sendBuffer.capacity

instance (c : Connection) (p : PacketData) : Decidable (c.Fits p) :=
  inferInstanceAs (Decidable (_ ≤ _))

end Connection

def errorNotEnoughMemory : Nat := 8
def wsaEWouldBlock : Nat := 10035
def wsaEIntr : Nat := 10004

/-- The errors for which `WorkerThread` calls `ReSend`. -/
def Retryable (internal : Nat) : Prop :=
  internal = errorNotEnoughMemory ∨ internal = wsaEWouldBlock ∨ internal = wsaEIntr

instance : DecidablePred Retryable := fun _ => inferInstanceAs (Decidable (_ ∨ _ ∨ _))

structure SendStream where
  conn : Connection
  outstanding : List Bytes
  accepted : Bytes
  transferred : Bytes
  refused : List (Bytes × Bytes)

/-- `complete`: the entry of post number `k` is dequeued; it reports `iosize` bytes and the status
`internal`. `post₁` is the answer to `ReSend`, `post₂` to the post of `SendCompleted`. -/
inductive SendAct where
  | send (p : PacketData) (post : Bool)
  | complete (k iosize internal : Nat) (post₁ post₂ : Bool)

namespace SendStream

def start : SendStream :=
  { conn := .connected, outstanding := [], accepted := [], transferred := [], refused := [] }

def sendMsg (s : SendStream) (p : PacketData) (post : Bool) : SendStream :=
  let r := s.conn.sendMsg (some p) post
  { s with
    conn := r.1
    outstanding := s.outstanding ++ r.2.2
    accepted := if r.2.1 = true then s.accepted ++ p.bytes else s.accepted
    refused := if r.2.1 = true then s.refused
      else s.refused ++ [(s.conn.sendBuffer.bytes, r.1.sendBuffer.bytes)] }

def reSend (s : SendStream) (post : Bool) : SendStream :=
  { s with
    conn := (s.conn.reSend post).1
    outstanding := s.outstanding ++ (s.conn.reSend post).2.2 }

/-- `DoSend`. -/
def sendCompleted (s : SendStream) (post : Bool) : SendStream :=
  { s with
    conn := (s.conn.sendCompleted post).1
    outstanding := s.outstanding ++ (s.conn.sendCompleted post).2 }

/-- `WorkerThread` with a SEND entry. -/
def workerThread (s : SendStream) (iosize internal : Nat) (post₁ post₂ : Bool) : SendStream :=
  if iosize = 0 then { s with conn := s.conn.reset }
  else if internal = 0 then s.sendCompleted post₂
  else (s.reSend post₁).sendCompleted post₂

/-- Post number `k`, of the bytes `bs`, has transferred `iosize` of them. -/
def dequeued (s : SendStream) (k : Nat) (bs : Bytes) (iosize : Nat) : SendStream :=
  { s with
    outstanding := s.outstanding.eraseIdx k
    transferred := s.transferred ++ bs.take iosize }

/-- The run is over one connected connection: nothing follows a reset. -/
def step (s : SendStream) : SendAct → Option SendStream
  | .send p post => if s.conn.isConnected = true then some (s.sendMsg p post) else none
  | .complete k iosize internal post₁ post₂ =>
    match s.outstanding[k]? with
    | none => none
    | some bs =>
      if s.conn.isConnected = true ∧ iosize ≤ bs.length ∧ (internal = 0 ∨ Retryable internal) then
        some ((s.dequeued k bs iosize).workerThread iosize internal post₁ post₂)
      else none

/-- The transferred bytes are in order, and nothing was kept of a packet that was refused. -/
structure InOrder (s : SendStream) : Prop where
  stream : s.transferred <+: s.accepted
  refused : ∀ r ∈ s.refused, r.2 = r.1

/-- The post of a packet on an idle connection succeeds. An entry reports no byte, or success and
the posted length; or, where `ReSend` cannot post, the length that it would have posted. -/
def Regular (s : SendStream) : SendAct → Prop
  | .send p post => s.conn.Fits p → s.conn.sendLen = 0 → post = true
  | .complete _ iosize internal post₁ _ =>
    iosize = 0 ∨ internal = 0 ∧ iosize = s.conn.sendLen ∨
      Retryable internal ∧ post₁ = false ∧ iosize = s.conn.datasize

instance (s : SendStream) : DecidablePred s.Regular
  | .send p post => inferInstanceAs (Decidable (s.conn.Fits p → s.conn.sendLen = 0 → post = true))
  | .complete _ iosize internal post₁ _ =>
    inferInstanceAs (Decidable (iosize = 0 ∨ internal = 0 ∧ iosize = s.conn.sendLen ∨
      Retryable internal ∧ post₁ = false ∧ iosize = s.conn.datasize))

variable {c : Connection} {s s' : SendStream} {p : PacketData}

/-! ## The buffer -/

/-- The send buffer is in order, with the capacity the constructor gave it. -/
structure Wf (c : Connection) : Prop where
  buffer : c.sendBuffer.Wf
  capacity : c.sendBuffer.capacity = maxSendSlideBufferSize

theorem wf_connected : Wf .connected := ⟨SlideBuffer.wf_init _, rfl⟩

theorem datasize_le (c : Connection) : c.datasize ≤ c.sendBuffer.size := by
  unfold Connection.datasize
  split <;> omega

theorem datasize_pos (h : 0 < c.sendBuffer.size) : 0 < c.datasize := by
  unfold Connection.datasize
  split
  · decide
  · exact h

/-- What a post that succeeds hands out is the front of the buffer. -/
theorem sendIO_posted (c : Connection) (post : Bool) : ( c.sendIO post).2.2 =
    if post = true then [c.sendBuffer.bytes.take c.datasize] else [] := by
  rw [ Connection.sendIO, SlideBuffer.take_data _ (datasize_le c)]

theorem Wf.enqueue_fits (h : Wf c) (hf : c.Fits p) :
    (c.sendBuffer.enqueue (some p.bytes) p.bytes.length).2 = true ∧
      (c.sendBuffer.enqueue (some p.bytes) p.bytes.length).1.bytes =
        c.sendBuffer.bytes ++ p.bytes ∧
      Wf { c with sendBuffer := (c.sendBuffer.enqueue (some p.bytes) p.bytes.length).1 } := by
  have hcap : c.sendBuffer.capacity < 2 ^ 32 := by
    rw [h.capacity]
    decide
  obtain ⟨hok, hbytes, hwf⟩ := SlideBuffer.enqueue_fits h.buffer p.bytes hcap hf
  exact ⟨hok, hbytes, hwf, (SlideBuffer.capacity_enqueue ..).trans h.capacity⟩

theorem Wf.enqueue_full (h : Wf c) (hf : ¬ c.Fits p) :
    c.sendBuffer.enqueue (some p.bytes) p.bytes.length = (c.sendBuffer, false) := by
  have hsize := h.buffer.size_le
  have hpacket := p.size_le
  have hcap : c.sendBuffer.capacity ≤ 131072 := Nat.le_of_eq h.capacity
  have hp : p.bytes.length ≤ 8192 := hpacket
  exact SlideBuffer.enqueue_full p.bytes (by omega) (Nat.lt_of_not_le hf)

/-! ## The invariant -/

/-- Nothing has been lost: what is accepted has been transferred or is in the buffer. The flag is
down over an empty buffer only, and at most one post is outstanding, of the front of the buffer. -/
structure Live (s : SendStream) : Prop where
  wf : Wf s.conn
  bytes : s.accepted = s.transferred ++ s.conn.sendBuffer.bytes
  sendLen_le : s.conn.sendLen ≤ s.conn.sendBuffer.size
  idle : s.conn.sendLen = 0 → s.conn.sendBuffer.size = 0
  outstanding : s.outstanding = [] ∨
    s.conn.sendLen ≠ 0 ∧ s.outstanding = [s.conn.sendBuffer.bytes.take s.conn.sendLen]

/-- What every state of a regular run satisfies. -/
structure Streaming (s : SendStream) : Prop where
  inOrder : s.InOrder
  live : s.conn.isConnected = true → s.Live

theorem streaming_start : Streaming start := by
  refine ⟨⟨List.nil_prefix, fun r hr => absurd hr List.not_mem_nil⟩, fun _ => ?_⟩
  exact ⟨wf_connected, rfl, Nat.le_refl 0, fun _ => rfl, .inl rfl⟩

theorem Live.stream (h : s.Live) : s.transferred <+: s.accepted := ⟨_, h.bytes.symm⟩

/-! ## `SendMsg` -/

/-- A packet that does not fit is refused and not kept. -/
theorem sendMsg_full (h : Wf s.conn) (hconn : s.conn.isConnected = true) (hf : ¬ s.conn.Fits p)
    (post : Bool) : s.sendMsg p post =
      { s with refused := s.refused ++ [(s.conn.sendBuffer.bytes, s.conn.sendBuffer.bytes)] } := by
  have hcall : s.conn.sendMsg (some p) post = (s.conn, false, []) := by
    rw [Connection.sendMsg, if_neg (by rw [hconn]; exact Bool.true_eq_false.mp), h.enqueue_full hf]
    rfl
  simp only [sendMsg, hcall, Bool.false_eq_true, if_false, List.append_nil]

/-- Behind a post in flight a packet is queued. -/
theorem sendMsg_busy (h : Wf s.conn) (hconn : s.conn.isConnected = true) (hf : s.conn.Fits p)
    (hlen : s.conn.sendLen ≠ 0) (post : Bool) : s.sendMsg p post =
      { s with
        conn := { s.conn with
          sendBuffer := (s.conn.sendBuffer.enqueue (some p.bytes) p.bytes.length).1 }
        accepted := s.accepted ++ p.bytes } := by
  obtain ⟨hok, -, -⟩ := h.enqueue_fits hf
  have hcall : s.conn.sendMsg (some p) post =
      ({ s.conn with
        sendBuffer := (s.conn.sendBuffer.enqueue (some p.bytes) p.bytes.length).1 }, true, []) := by
    rw [Connection.sendMsg, if_neg (by rw [hconn]; exact Bool.true_eq_false.mp)]
    simp only [hok, hlen, Bool.true_eq_false, if_false]
  simp only [sendMsg, hcall, if_true, List.append_nil]

/-- On an idle connection it is posted at once, and the answer is that of the post. -/
theorem sendMsg_idle (h : Wf s.conn) (hconn : s.conn.isConnected = true) (hf : s.conn.Fits p)
    (hlen : s.conn.sendLen = 0) (post : Bool) : s.sendMsg p post =
      let c := { s.conn with
        sendBuffer := (s.conn.sendBuffer.enqueue (some p.bytes) p.bytes.length).1 }
      { s with
        conn := ( c.sendIO post).1
        outstanding := s.outstanding ++ ( c.sendIO post).2.2
        accepted := if post = true then s.accepted ++ p.bytes else s.accepted
        refused := if post = true then s.refused
          else s.refused ++ [(s.conn.sendBuffer.bytes, c.sendBuffer.bytes)] } := by
  obtain ⟨hok, -, -⟩ := h.enqueue_fits hf
  have hcall : s.conn.sendMsg (some p) post =
      Connection.sendIO { s.conn with
        sendBuffer := (s.conn.sendBuffer.enqueue (some p.bytes) p.bytes.length).1 } post := by
    rw [Connection.sendMsg, if_neg (by rw [hconn]; exact Bool.true_eq_false.mp)]
    simp only [hok, hlen, Bool.true_eq_false, if_false, if_true]
  simp only [sendMsg, hcall]
  rfl

theorem size_eq (h : Wf c) : c.sendBuffer.bytes.length = c.sendBuffer.size := h.buffer.bytes_length

/-- A regular `SendMsg` keeps what is in flight, and puts an idle connection in flight. -/
theorem live_sendMsg (h : s.Live) (hconn : s.conn.isConnected = true) {post : Bool}
    (hpost : s.conn.Fits p → s.conn.sendLen = 0 → post = true) : (s.sendMsg p post).Live := by
  by_cases hf : s.conn.Fits p
  · obtain ⟨-, hbytes, hwf⟩ := h.wf.enqueue_fits hf
    have hold := size_eq h.wf
    have hsize := size_eq hwf
    simp only [hbytes, List.length_append, hold] at hsize
    have hpos := p.size_pos
    by_cases hlen : s.conn.sendLen = 0
    · obtain rfl := hpost hf hlen
      rw [sendMsg_idle h.wf hconn hf hlen]
      have hnone : s.outstanding = [] := by
        rcases h.outstanding with hnone | ⟨hne, -⟩
        · exact hnone
        · exact absurd hlen hne
      refine ⟨⟨hwf.buffer, hwf.capacity⟩, ?_, datasize_le _, fun hzero => ?_, .inr ⟨?_, ?_⟩⟩
      · calc s.accepted ++ p.bytes = s.transferred ++ (s.conn.sendBuffer.bytes ++ p.bytes) := by
              rw [h.bytes, List.append_assoc]
          _ = _ := by
              rw [← hbytes]
              rfl
      · have hpos' := datasize_pos (c := { s.conn with sendBuffer :=
          (s.conn.sendBuffer.enqueue (some p.bytes) p.bytes.length).1 }) (by rw [← hsize]; omega)
        exact absurd hzero (Nat.ne_of_gt hpos')
      · exact Nat.ne_of_gt (datasize_pos (by rw [← hsize]; omega))
      · show s.outstanding ++ _ = _
        rw [hnone, sendIO_posted]
        rfl
    · rw [sendMsg_busy h.wf hconn hf hlen]
      refine ⟨hwf, ?_, ?_, fun hzero => absurd hzero hlen, ?_⟩
      · show s.accepted ++ p.bytes = s.transferred ++ _
        rw [h.bytes, List.append_assoc, ← hbytes]
      · show s.conn.sendLen ≤ (s.conn.sendBuffer.enqueue (some p.bytes) p.bytes.length).1.size
        have hle := h.sendLen_le
        omega
      · rcases h.outstanding with hnone | ⟨-, hone⟩
        · exact .inl hnone
        · refine .inr ⟨hlen, ?_⟩
          show s.outstanding = [List.take s.conn.sendLen _]
          rw [hone, hbytes, List.take_append_of_le_length (by rw [hold]; exact h.sendLen_le)]
  · rw [sendMsg_full h.wf hconn hf]
    exact ⟨h.wf, h.bytes, h.sendLen_le, h.idle, h.outstanding⟩

/-- A regular `SendMsg` that returns false leaves the buffer as it was. -/
theorem refused_sendMsg (h : s.Live) (hconn : s.conn.isConnected = true) {post : Bool}
    (hpost : s.conn.Fits p → s.conn.sendLen = 0 → post = true)
    (hrefused : ∀ r ∈ s.refused, r.2 = r.1) : ∀ r ∈ (s.sendMsg p post).refused, r.2 = r.1 := by
  by_cases hf : s.conn.Fits p
  · by_cases hlen : s.conn.sendLen = 0
    · obtain rfl := hpost hf hlen
      rw [sendMsg_idle h.wf hconn hf hlen]
      exact hrefused
    · rw [sendMsg_busy h.wf hconn hf hlen]
      exact hrefused
  · rw [sendMsg_full h.wf hconn hf]
    intro r hr
    rcases List.mem_append.mp hr with hr | hr
    · exact hrefused r hr
    · rw [List.mem_singleton.mp hr]

/-! ## Entries -/

/-- `SendCompleted` pops the posted length, and what is left is posted again or stalls. -/
theorem live_sendCompleted (h : Wf s.conn) (hlen : s.conn.sendLen ≤ s.conn.sendBuffer.size)
    (hbytes : s.accepted =
      s.transferred ++ s.conn.sendBuffer.bytes.drop s.conn.sendLen)
    (hnone : s.outstanding = []) (post : Bool) : (s.sendCompleted post).Live := by
  obtain ⟨-, hpop, hwf⟩ := SlideBuffer.pop_spec h.buffer hlen
  have hcap : (s.conn.sendBuffer.pop s.conn.sendLen).1.capacity = maxSendSlideBufferSize :=
    (SlideBuffer.capacity_pop ..).trans h.capacity
  rw [← hpop] at hbytes
  generalize hb : (s.conn.sendBuffer.pop s.conn.sendLen).1 = b at hwf hcap hbytes
  have hcall : s.conn.sendCompleted post =
      let c := { s.conn with sendBuffer := b, sendLen := 0 }
      if b.isEmpty = true then (c, []) else (( c.sendIO post).1, ( c.sendIO post).2.2) := by
    rw [Connection.sendCompleted, Connection.popped, hb]
  by_cases hempty : b.isEmpty = true
  · rw [sendCompleted, hcall, if_pos hempty]
    refine ⟨⟨hwf, hcap⟩, hbytes, Nat.zero_le _, fun _ => beq_iff_eq.mp hempty, .inl ?_⟩
    show s.outstanding ++ [] = []
    rw [hnone, List.append_nil]
  · rw [sendCompleted, hcall, if_neg hempty]
    have hpos : 0 < b.size := by
      have hne : ¬ b.size = 0 := fun he => hempty (beq_iff_eq.mpr he)
      omega
    have hlen' := datasize_pos (c := { s.conn with sendBuffer := b, sendLen := 0 }) hpos
    refine ⟨⟨hwf, hcap⟩, hbytes, datasize_le _, fun hzero => absurd hzero (Nat.ne_of_gt hlen'), ?_⟩
    show s.outstanding ++ _ = [] ∨ _
    rw [hnone, List.nil_append, sendIO_posted]
    cases post with
    | false => exact .inl rfl
    | true => exact .inr ⟨Nat.ne_of_gt hlen', rfl⟩

/-- There is an entry to dequeue only for the one post. -/
theorem Live.entry (h : s.Live) {k : Nat} {bs : Bytes} (hbs : s.outstanding[k]? = some bs) :
    s.conn.sendLen ≠ 0 ∧ bs = s.conn.sendBuffer.bytes.take s.conn.sendLen ∧
      s.outstanding.eraseIdx k = [] := by
  rcases h.outstanding with hnone | ⟨hlen, hone⟩
  · rw [hnone] at hbs
    cases hbs
  · rw [hone] at hbs ⊢
    cases k with
    | zero => exact ⟨hlen, (Option.some.inj hbs).symm, rfl⟩
    | succ k => cases hbs

/-- A regular entry keeps the transferred bytes in order, and the stream if the connection stays. -/
theorem streaming_complete (h : s.Live) (hrefused : ∀ r ∈ s.refused, r.2 = r.1) {k : Nat}
    {bs : Bytes} (hbs : s.outstanding[k]? = some bs) {iosize internal : Nat} {post₁ post₂ : Bool}
    (hle : iosize ≤ bs.length) (hregular : s.Regular (.complete k iosize internal post₁ post₂)) :
    Streaming ((s.dequeued k bs iosize).workerThread iosize internal post₁ post₂) := by
  obtain ⟨hlen, rfl, hnone⟩ := h.entry hbs
  have hsize := size_eq h.wf
  have hsendLen := h.sendLen_le
  rw [List.length_take, hsize] at hle
  by_cases hzero : iosize = 0
  · subst hzero
    rw [workerThread, if_pos rfl]
    refine ⟨⟨?_, hrefused⟩, fun hconn => by cases hconn⟩
    show s.transferred ++ List.take 0 _ <+: s.accepted
    rw [List.take_zero, List.append_nil]
    exact h.stream
  · -- what is transferred is what `SendCompleted` pops
    have htake : (s.conn.sendBuffer.bytes.take s.conn.sendLen).take iosize =
        s.conn.sendBuffer.bytes.take iosize := by
      rw [List.take_take, Nat.min_eq_left (by omega)]
    have hbytes : s.accepted = s.transferred ++ s.conn.sendBuffer.bytes.take iosize ++
        s.conn.sendBuffer.bytes.drop iosize := by
      calc s.accepted = s.transferred ++ s.conn.sendBuffer.bytes := h.bytes
        _ = s.transferred ++ (s.conn.sendBuffer.bytes.take iosize ++
            s.conn.sendBuffer.bytes.drop iosize) := by rw [List.take_append_drop]
        _ = _ := (List.append_assoc ..).symm
    have hlive : ∀ t : SendStream, t.Live → t.refused = s.refused → Streaming t :=
      fun t ht hr => ⟨⟨ht.stream, hr ▸ hrefused⟩, fun _ => ht⟩
    generalize ht : s.dequeued k (s.conn.sendBuffer.bytes.take s.conn.sendLen) iosize = t
    have hconn : t.conn = s.conn := by rw [← ht]; rfl
    have hnone' : t.outstanding = [] := by rw [← ht]; exact hnone
    have hbytes' : t.accepted = t.transferred ++ t.conn.sendBuffer.bytes.drop iosize := by
      rw [← ht]
      show s.accepted = s.transferred ++ List.take iosize _ ++ _
      rw [htake]
      exact hbytes
    have hwf : Wf t.conn := hconn ▸ h.wf
    have hrefused' : t.refused = s.refused := by rw [← ht]; rfl
    rcases hregular with hz | ⟨rfl, hfull⟩ | ⟨hretry, rfl, hfull⟩
    · exact absurd hz hzero
    · rw [workerThread, if_neg hzero, if_pos rfl]
      rw [← hconn] at hfull hsendLen
      rw [hfull] at hbytes'
      exact hlive _ (live_sendCompleted hwf hsendLen hbytes' hnone' post₂) hrefused'
    · have hinternal : internal ≠ 0 := by
        rintro rfl
        exact absurd hretry (by decide)
      rw [workerThread, if_neg hzero, if_neg hinternal]
      rw [← hconn] at hfull
      rw [hfull] at hbytes'
      have hnone'' : (t.reSend false).outstanding = [] := by
        show t.outstanding ++ [] = []
        rw [hnone', List.append_nil]
      exact hlive _ (live_sendCompleted (s := t.reSend false) ⟨hwf.buffer, hwf.capacity⟩
        (datasize_le t.conn) hbytes' hnone'' post₂) hrefused'

theorem streaming_step (h : Streaming s) {l : SendAct} (hl : s.Regular l)
    (hs : step s l = some s') : Streaming s' := by
  cases l with
  | send p post =>
    simp only [step] at hs
    split at hs
    · next hconn =>
      obtain rfl := Option.some.inj hs
      have hlive := h.live hconn
      have hlive' := live_sendMsg hlive hconn hl
      exact ⟨⟨hlive'.stream, refused_sendMsg hlive hconn hl h.inOrder.refused⟩, fun _ => hlive'⟩
    · cases hs
  | complete k iosize internal post₁ post₂ =>
    simp only [step] at hs
    split at hs
    · cases hs
    · next bs hbs =>
      split at hs
      · next hcond =>
        obtain rfl := Option.some.inj hs
        obtain ⟨hconn, hle, -⟩ := hcond
        exact streaming_complete (h.live hconn) h.inOrder.refused hbs hle hl
      · cases hs

/-- The stream is in order in every state of a run whose steps are regular. -/
theorem transferred_in_order {acts : List SendAct} (hregular : Meets step Regular start acts)
    (hr : run step start acts = some s) : s.InOrder :=
  (run_invariant (fun _ _ _ h hl hs => streaming_step h hl hs) streaming_start hregular hr).inOrder

/-! ## Other steps -/

/-- Where the post of a packet on an idle connection fails, the packet is refused and kept. -/
theorem sendMsg_keeps_refused (h : s.Live) (hconn : s.conn.isConnected = true)
    (hf : s.conn.Fits p) (hlen : s.conn.sendLen = 0) : ¬ (s.sendMsg p false).InOrder := by
  intro hin
  obtain ⟨-, hbytes, -⟩ := h.wf.enqueue_fits hf
  have hrefused := hin.refused
  rw [sendMsg_idle h.wf hconn hf hlen] at hrefused
  have hsame := hrefused _ (List.mem_append_right _ (List.mem_singleton_self _))
  simp only [hbytes] at hsame
  have hpos := p.size_pos
  rw [List.append_right_eq_self.mp hsame] at hpos
  exact absurd hpos (Nat.lt_irrefl 0)

/-- What `SendCompleted` pops is not in the buffer any more. -/
theorem sendCompleted_length (h : Wf s.conn) (hlen : s.conn.sendLen ≤ s.conn.sendBuffer.size)
    (post : Bool) : (s.sendCompleted post).conn.sendBuffer.bytes.length =
        s.conn.sendBuffer.size - s.conn.sendLen ∧
      (s.sendCompleted post).transferred = s.transferred ∧
      (s.sendCompleted post).accepted = s.accepted := by
  obtain ⟨-, hpop, -⟩ := SlideBuffer.pop_spec h.buffer hlen
  have hbuffer : (s.sendCompleted post).conn.sendBuffer =
      (s.conn.sendBuffer.pop s.conn.sendLen).1 := by
    simp only [sendCompleted, Connection.sendCompleted, Connection.sendIO]
    split <;> rfl
  rw [hbuffer, hpop, List.length_drop, size_eq h]
  exact ⟨rfl, rfl, rfl⟩

/-- Where an entry reports fewer bytes than `SendCompleted` pops, the others are lost. -/
theorem partial_loses (h : s.Live) (hconn : s.conn.isConnected = true) {k : Nat} {bs : Bytes}
    (hbs : s.outstanding[k]? = some bs) {iosize internal : Nat} (hpos : 0 < iosize)
    (hle : iosize ≤ bs.length) (hinternal : internal = 0 ∨ Retryable internal) (post₂ : Bool)
    (hlt : iosize < if internal = 0 then s.conn.sendLen else s.conn.datasize) :
    ∃ s', step s (.complete k iosize internal false post₂) = some s' ∧
      s'.transferred.length + s'.conn.sendBuffer.bytes.length < s'.accepted.length := by
  have hzero : iosize ≠ 0 := by omega
  have haccepted := congrArg List.length h.bytes
  rw [List.length_append, size_eq h.wf] at haccepted
  have htransferred : (s.dequeued k bs iosize).transferred.length =
      s.transferred.length + iosize := by
    show (s.transferred ++ bs.take iosize).length = _
    rw [List.length_append, List.length_take, Nat.min_eq_left hle]
  have hwf : Wf (s.dequeued k bs iosize).conn := h.wf
  have hacc : (s.dequeued k bs iosize).accepted.length = s.accepted.length := rfl
  have hbuffer : (s.dequeued k bs iosize).conn = s.conn := rfl
  simp only [step, hbs, hconn, true_and, if_pos (And.intro hle hinternal)]
  refine ⟨_, rfl, ?_⟩
  generalize s.dequeued k bs iosize = t at *
  rw [← hbuffer] at haccepted hlt
  have hsendLen : t.conn.sendLen ≤ t.conn.sendBuffer.size := hbuffer ▸ h.sendLen_le
  by_cases hok : internal = 0
  · rw [if_pos hok] at hlt
    obtain ⟨hlen, htr, hac⟩ := sendCompleted_length hwf hsendLen post₂
    rw [workerThread, if_neg hzero, if_pos hok, hlen, htr, hac]
    omega
  · rw [if_neg hok] at hlt
    obtain ⟨hlen, htr, hac⟩ := sendCompleted_length (s := t.reSend false)
      ⟨hwf.buffer, hwf.capacity⟩ (datasize_le t.conn) post₂
    rw [workerThread, if_neg hzero, if_neg hok, hlen, htr, hac]
    have hdatasize := datasize_le t.conn
    show t.transferred.length + (t.conn.sendBuffer.size - t.conn.datasize) < t.accepted.length
    omega

/-- Where an entry reports bytes and a retryable error and `ReSend` can post, the bytes are posted a
second time. -/
theorem retry_repeats (h : s.Live) (hconn : s.conn.isConnected = true) {k : Nat} {bs : Bytes}
    (hbs : s.outstanding[k]? = some bs) {iosize internal : Nat} (hpos : 0 < iosize)
    (hle : iosize ≤ bs.length) (hretry : Retryable internal) (post₂ : Bool)
    (hfront : s.conn.sendLen ≤ s.conn.datasize) :
    ∃ s', step s (.complete k iosize internal true post₂) = some s' ∧
      s'.transferred = s.transferred ++ bs.take iosize ∧
      ∃ bs' ∈ s'.outstanding, bs.take iosize <+: bs' := by
  have hzero : iosize ≠ 0 := by omega
  have hinternal : internal ≠ 0 := by
    rintro rfl
    exact absurd hretry (by decide)
  obtain ⟨-, rfl, hnone⟩ := h.entry hbs
  simp only [step, hbs, hconn, true_and, if_pos (And.intro hle (Or.inr hretry))]
  refine ⟨_, rfl, ?_, s.conn.sendBuffer.bytes.take s.conn.datasize, ?_, ?_⟩
  · rw [workerThread, if_neg hzero, if_neg hinternal]
    rfl
  · rw [workerThread, if_neg hzero, if_neg hinternal]
    apply List.mem_append_left
    show s.conn.sendBuffer.bytes.take s.conn.datasize ∈
      s.outstanding.eraseIdx k ++ ( s.conn.sendIO true).2.2
    rw [hnone, sendIO_posted, if_pos rfl]
    exact List.mem_singleton_self _
  · rw [List.take_take]
    exact List.take_prefix_take_left (by omega)

/-! ## One packet -/

/-- A packet with an empty payload. -/
def hello : PacketData :=
  { bytes := initPacket [] .REQ_SUCCESS 7 [], size_pos := by decide, size_le := by decide }

/-- It is sent twice; the second waits for the first, and its own entry is reported with an error
after which `ReSend` cannot post. -/
theorem transferred_in_order_hello : ∃ s, run step start [.send hello true, .send hello false,
    .complete 0 12 0 false true, .complete 0 12 wsaEIntr false true] = some s ∧ s.InOrder := by
  have hrun : (run step start [.send hello true, .send hello false,
      .complete 0 12 0 false true, .complete 0 12 wsaEIntr false true]).isSome = true := by
    decide +kernel
  obtain ⟨s, hs⟩ := Option.isSome_iff_exists.mp hrun
  exact ⟨s, hs, transferred_in_order (by decide +kernel) hs⟩

/-- Its post fails: `SendMsg` returns false and the packet stays in the buffer. -/
theorem refused_is_kept : ¬ ∀ (acts : List SendAct) (s : SendStream),
    run step start acts = some s → s.InOrder := by
  intro h
  have hrun : (run step start [.send hello false]).map SendStream.refused =
      some [([], hello.bytes)] := by decide +kernel
  obtain ⟨s, hs, hrefused⟩ := Option.map_eq_some_iff.mp hrun
  have hsame := (h _ s hs).refused ([], hello.bytes) (by rw [hrefused]; simp)
  exact absurd hsame (by decide)

end SendStream

end IOCPServer
