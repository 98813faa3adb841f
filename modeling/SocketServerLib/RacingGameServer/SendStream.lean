import SocketServerLib.RacingGameServer.Connection
import SocketServerLib.RacingGameServer.Dispatch
import SocketServerLib.Lib.LabelledRun

/-
  The outgoing TCP stream of one connection: `SendMsgTCP` calls with packets built
  by `PacketData::Init`, and completions of its `WSASend` posts as `WorkerThread`
  dispatches them.

  `outstanding` lists the bytes of the posts not completed yet; `accepted` and
  `completed` are ghosts, the bytes of the packets `SendMsgTCP` took and the bytes
  the completions reported.

  What is proved:
    1. `stream_in_order` — with packets of at most one segment and no completion
       that reports both bytes and a retryable error, there is at most one post,
       and the completed bytes are a prefix of the accepted ones.
    2. `retry_posts_twice` — a completion with bytes and a retryable error is
       answered by two posts.
    3. `oversized_posts_twice` — a packet larger than a segment is posted as an
       empty gather list, and the next packet is posted beside it.
    4. `stream_broken` — a run with two posts outstanding.

  What is assumed: every post succeeds, and a `SendMsgTCP` and the handling of an entry are one
  step each.
-/
namespace RacingGameServer

open LabelledRun

structure SendStream where
  conn : Connection
  outstanding : List Bytes
  accepted : Bytes
  completed : Bytes

/-- `send`: a packet is initialised with the payload and given to `SendMsgTCP`. `complete`: the
entry of post number `k` is dequeued; it reports `iosize` bytes and the status `internal`. -/
inductive SendAct where
  | send (pPacket_ : PacketData) (infoCode_ : InfoCode) (reqNo_ : Nat) (payload : Bytes)
  | complete (k iosize internal : Nat) (isRun : Bool)

namespace SendStream

/-- A connection at the start of its stream. -/
def start (c : Connection) : SendStream :=
  { conn := c, outstanding := [], accepted := [], completed := [] }

/-- The bytes of a gather list handed to `WSASend` are outstanding. -/
def posted (s : SendStream) : Option (List WSABUF) → SendStream
  | none => s
  | some ws => { s with outstanding := s.outstanding ++ [SendBuffer.gatheredBytes ws] }

/-- The calls of the dispatcher that reach the connection. -/
def call (s : SendStream) : Call → SendStream
  | .reSendTCP _ =>
    { s with conn := (s.conn.reSendTCP true).1 }.posted (s.conn.reSendTCP true).2.2
  | .doTCPSend n =>
    { s with
      conn := (s.conn.tcpSendCompleted n true).1 }.posted (s.conn.tcpSendCompleted n true).2.2
  | .doDisconnect _ _ => { s with conn := s.conn.reset }
  | _ => s

/-- `SendMsgTCP`; the packet is accepted if it returns true. -/
def sendMsgTCP (s : SendStream) (p : PacketData) : SendStream :=
  let r := s.conn.sendMsgTCP (some p) true
  { s with
    conn := r.1
    accepted := if r.2.1 then s.accepted ++ p.bytes else s.accepted }.posted r.2.2

/-- The run is over one connected connection: nothing follows a disconnect. -/
def step (i : Nat) (s : SendStream) : SendAct → Option SendStream
  | .send q infoCode_ reqNo_ payload =>
    match q.init infoCode_ reqNo_ payload with
    | (_, false) => none
    | (p, true) => if s.conn.isConnected = false then none else some (s.sendMsgTCP p)
  | .complete k iosize internal isRun =>
    match s.outstanding[k]? with
    | none => none
    | some bs =>
      if s.conn.isConnected = false ∨ bs.length < iosize then none
      else
        (dispatch isRun true (sendEntry i iosize internal)).map fun calls =>
          calls.foldl call { s with
            outstanding := s.outstanding.eraseIdx k
            completed := s.completed ++ bs.take iosize }

open SendBuffer

variable {i : Nat} {s s' : SendStream}

theorem step_send {q : PacketData} {c : InfoCode} {r : Nat} {payload : Bytes}
    (h : step i s (.send q c r payload) = some s') :
    ∃ p, q.init c r payload = (p, true) ∧ s.conn.isConnected = true ∧ s' = s.sendMsgTCP p := by
  simp only [step] at h
  split at h
  · cases h
  · next p hp =>
    split at h
    · cases h
    · next hconn => exact ⟨p, hp, by simpa using hconn, (Option.some.inj h).symm⟩

theorem step_complete {k n internal : Nat} {isRun : Bool}
    (h : step i s (.complete k n internal isRun) = some s') :
    ∃ bs calls, s.outstanding[k]? = some bs ∧ s.conn.isConnected = true ∧ n ≤ bs.length ∧
      dispatch isRun true (sendEntry i n internal) = some calls ∧
      s' = calls.foldl call { s with
        outstanding := s.outstanding.eraseIdx k
        completed := s.completed ++ bs.take n } := by
  simp only [step] at h
  split at h
  · cases h
  · next bs hbs =>
    split at h
    · cases h
    · next hcond =>
      obtain ⟨calls, hcalls, rfl⟩ := Option.map_eq_some_iff.mp h
      refine ⟨bs, calls, hbs, ?_, ?_, hcalls, rfl⟩
      · simpa using fun hf => hcond (.inl hf)
      · exact Nat.le_of_not_lt fun hlt => hcond (.inr hlt)

/-- `SendMsgTCP` on the queue: refused, queued behind the post in flight, or posted at once. -/
theorem sendMsgTCP_spec {q : List PacketData} (hq : s.conn.sendBuffer.Holds q)
    (hconn : s.conn.isConnected = true) (p : PacketData) :
    (s.conn.sendBuffer.isFull = true ∧ s.sendMsgTCP p = s) ∨ ∃ ring, ring.Holds (q ++ [p]) ∧
      ring.capacity = s.conn.sendBuffer.capacity ∧ ((s.conn.sendLen ≠ 0 ∧ s.sendMsgTCP p =
          { s with
            conn := { s.conn with sendBuffer := ring }
            accepted := s.accepted ++ p.bytes }) ∨
        (s.conn.sendLen = 0 ∧ s.sendMsgTCP p =
          { s with
            conn := { s.conn with
              sendBuffer := ring
              sendWsaBuf := gather maxWsabufs 0 0 (q ++ [p]) }
            accepted := s.accepted ++ p.bytes
            outstanding := s.outstanding ++
              [gatheredBytes (gather maxWsabufs 0 0 (q ++ [p]))] })) := by
  have hlocked : s.conn.sendMsgTCP (some p) true = s.conn.sendMsgTCPLocked (some p) true := by
    simp [Connection.sendMsgTCP, hconn]
  rcases Connection.sendMsgTCPLocked_spec hq p true with
    ⟨hf, he⟩ | ⟨ring, hring, hcap, -, ⟨hlen, he⟩ | ⟨hlen, he⟩⟩ <;>
    simp only [sendMsgTCP, hlocked, he]
  · exact .inl ⟨hf, rfl⟩
  · exact .inr ⟨ring, hring, hcap, .inl ⟨hlen, rfl⟩⟩
  · exact .inr ⟨ring, hring, hcap, .inr ⟨hlen, rfl⟩⟩

/-! ## The invariant -/

/-- What the claim on the stream says of a state. -/
def InOrder (s : SendStream) : Prop := s.outstanding.length ≤ 1 ∧ s.completed <+: s.accepted

/-- A packet a gather list can start with. -/
structure Fits (p : PacketData) : Prop where
  wf : p.Wf
  pos : 0 < p.size
  le : p.size ≤ maxTcpSegmentSize

/-- Nothing is waiting and nothing is posted. -/
structure Idle (s : SendStream) (q : List PacketData) : Prop where
  queue : q = []
  outstanding : s.outstanding = []
  sendLen : s.conn.sendLen = 0
  bytes : s.accepted = s.completed

/-- One post is outstanding, of the bytes at the front of the queue, and the flag says so. -/
structure InFlight (s : SendStream) (q : List PacketData) : Prop where
  outstanding : ∃ bs, s.outstanding = [bs] ∧ bs <+: streamBytes q
  sendLen : s.conn.sendLen ≠ 0
  bytes : s.accepted = s.completed ++ streamBytes q

/-- The entry of the last post was dropped: the flag stays up, and nothing is posted again. -/
structure Stalled (s : SendStream) : Prop where
  outstanding : s.outstanding = []
  sendLen : s.conn.sendLen ≠ 0
  bytes : s.completed <+: s.accepted

def Live (s : SendStream) : Prop :=
  ∃ q, s.conn.sendBuffer.Holds q ∧ (∀ p ∈ q, Fits p) ∧ (Idle s q ∨ InFlight s q ∨ Stalled s)

/-- What every state of a regular run satisfies. -/
structure Streaming (s : SendStream) : Prop where
  inOrder : InOrder s
  live : s.conn.isConnected = true → Live s

/-- A packet of at most one segment; a completion that does not report both bytes and an error
whose I/O is requested again. -/
def Regular : SendAct → Prop
  | .send _ _ _ payload => payload.length + sizeofInfoHeader ≤ maxTcpSegmentSize
  | .complete _ iosize internal isRun => ¬ (isRun = true ∧ 0 < iosize ∧ retryable internal)

theorem Live.inOrder (h : Live s) : InOrder s := by
  obtain ⟨q, -, -, h | h | h⟩ := h
  · exact ⟨by rw [h.outstanding]; exact Nat.zero_le 1, ⟨[], by rw [h.bytes, List.append_nil]⟩⟩
  · obtain ⟨bs, hbs, -⟩ := h.outstanding
    exact ⟨by rw [hbs]; exact Nat.le_refl 1, ⟨_, h.bytes.symm⟩⟩
  · exact ⟨by rw [h.outstanding]; exact Nat.zero_le 1, h.bytes⟩

theorem Live.streaming (h : Live s) : Streaming s := ⟨h.inOrder, fun _ => h⟩

theorem streaming_start {c : Connection} (hring : c.sendBuffer.Holds []) (hlen : c.sendLen = 0) :
    Streaming (start c) :=
  Live.streaming ⟨[], hring, fun _ hp => (by cases hp), .inl ⟨rfl, rfl, hlen, rfl⟩⟩

theorem fits_init {q : PacketData} {c : InfoCode} {r : Nat} {payload : Bytes}
    (h : payload.length + sizeofInfoHeader ≤ maxTcpSegmentSize) : Fits (q.init c r payload).1 := by
  simp only [sizeofInfoHeader, maxTcpSegmentSize] at h
  obtain ⟨-, hwf, hb⟩ := q.init_bytes c r payload (by
    simp only [maxPayloadSize, packetSize, maxSockbuf, headerSize]; omega)
  have hsize : (q.init c r payload).1.size = payload.length + 12 := by
    rw [← hwf.bytes_length, hb]
    simp only [List.length_append, leEncode_length]
    omega
  exact ⟨hwf, by omega, by rw [maxTcpSegmentSize]; omega⟩

theorem fits_pop {p : PacketData} {n : Nat} (h : Fits p) (hn : n < p.size) : Fits (p.pop n) := by
  have hsize := PacketData.size_pop hn
  exact ⟨h.wf.pop hn, by omega, by have := h.le; omega⟩

/-- Posting the gather list of a queue whose head fits puts its front in flight. -/
theorem inFlight_posted {q : List PacketData} (hne : q ≠ []) (hfits : ∀ p ∈ q, Fits p)
    (hws : s.conn.sendWsaBuf = gather maxWsabufs 0 0 q)
    (hout : s.outstanding = [gatheredBytes (gather maxWsabufs 0 0 q)])
    (hbytes : s.accepted = s.completed ++ streamBytes q) : InFlight s q := by
  refine ⟨⟨_, hout, gatheredBytes_front ..⟩, ?_, hbytes⟩
  -- the head fits a segment, so it is in the list, and its size is the flag
  obtain ⟨p, q', rfl⟩ := List.exists_cons_of_ne_nil hne
  have hp := hfits p (List.mem_cons_self ..)
  rw [gather_cons hp.le (by decide)] at hws
  rw [Connection.sendLen, hws]
  exact Nat.pos_iff_ne_zero.mp hp.pos

theorem live_send (h : Live s) (hconn : s.conn.isConnected = true) {p : PacketData}
    (hp : Fits p) : Live (s.sendMsgTCP p) := by
  obtain ⟨q, hq, hfits, h⟩ := h
  have hfits' : ∀ x ∈ q ++ [p], Fits x := by
    intro x hx
    rcases List.mem_append.mp hx with hx | hx
    · exact hfits x hx
    · exact List.mem_singleton.mp hx ▸ hp
  rcases sendMsgTCP_spec hq hconn p with
    ⟨-, he⟩ | ⟨ring, hring, -, ⟨hlen, he⟩ | ⟨hlen, he⟩⟩ <;> rw [he]
  · exact ⟨q, hq, hfits, h⟩
  · refine ⟨q ++ [p], hring, hfits', ?_⟩
    rcases h with h | h | h
    · exact absurd h.sendLen hlen
    · obtain ⟨bs, hbs, hpre⟩ := h.outstanding
      refine .inr (.inl ⟨⟨bs, hbs, ?_⟩, h.sendLen, by simp [h.bytes]⟩)
      rw [streamBytes_append]
      exact hpre.trans (List.prefix_append _ _)
    · exact .inr (.inr ⟨h.outstanding, h.sendLen, h.bytes.trans (List.prefix_append _ _)⟩)
  · refine ⟨q ++ [p], hring, hfits', ?_⟩
    rcases h with h | h | h
    · obtain ⟨rfl, hout, -, hbytes⟩ := h
      exact .inr (.inl (inFlight_posted (by simp) hfits' rfl (by simp [hout]) (by simp [hbytes])))
    · exact absurd hlen h.sendLen
    · exact absurd hlen h.sendLen

/-- The completion of the one post: its bytes leave the queue, and what is left is posted. -/
theorem live_completed {q : List PacketData} {bs : Bytes} {n : Nat}
    (hq : s.conn.sendBuffer.Holds q) (hfits : ∀ p ∈ q, Fits p) (hpre : bs <+: streamBytes q)
    (hbytes : s.accepted = s.completed ++ streamBytes q) (hn : n ≤ bs.length) :
    Live (SendStream.call { s with outstanding := [], completed := s.completed ++ bs.take n }
      (.doTCPSend n)) := by
  have htake : bs.take n = (streamBytes q).take n := by
    obtain ⟨t, ht⟩ := hpre
    rw [← ht, List.take_append_of_le_length hn]
  have hdrop := streamBytes_dropBytes n fun p hp => (hfits p hp).wf
  have hrest : s.accepted = s.completed ++ bs.take n ++ streamBytes (dropBytes n q).1 := by
    rw [hbytes, htake, hdrop, List.append_assoc, List.take_append_drop]
  have hfits' : ∀ p ∈ (dropBytes n q).1, Fits p :=
    dropBytes_forall (fun p m hp hm => fits_pop hp hm) n hfits
  obtain ⟨ring, hring, ⟨hnil, he⟩ | ⟨hne, he⟩⟩ := Connection.tcpSendCompleted_spec hq n true <;>
    simp only [call, he, posted]
  · refine ⟨_, hring, hfits', .inl ⟨hnil, rfl, Connection.sendLen_clear .., ?_⟩⟩
    rw [hrest, hnil, streamBytes_nil, List.append_nil]
  · exact ⟨_, hring, hfits', .inr (.inl (inFlight_posted hne hfits' rfl rfl hrest))⟩

theorem outstanding_posted (s : SendStream) (ws : Option (List WSABUF)) :
    (s.posted ws).outstanding.length ≤ s.outstanding.length + 1 ∧
      (s.posted ws).completed = s.completed ∧ (s.posted ws).accepted = s.accepted ∧
      (s.posted ws).conn = s.conn := by
  cases ws <;> simp [posted]

/-- After a disconnect the dispatcher may still complete the send, and post once. -/
theorem streaming_disconnected (hout : s.outstanding = []) (hpre : s.completed <+: s.accepted)
    {b : Bool} {n : Nat} {rest : List Call} (hrest : rest = [] ∨ rest = [.doTCPSend n]) :
    Streaming ((.doDisconnect i b :: rest).foldl call s) := by
  have hconn : ∀ c : Connection, (c.tcpSendCompleted n true).1.isConnected = c.isConnected := by
    intro c
    simp only [Connection.tcpSendCompleted, Connection.sendTCPIO]
    split <;> rfl
  rcases hrest with rfl | rfl
  · exact ⟨⟨by simp [call, hout], hpre⟩, fun h => by cases h⟩
  · simp only [List.foldl_cons, List.foldl_nil, call]
    obtain ⟨hlen, hcomp, hacc, hc⟩ := outstanding_posted
      { s with conn := (s.conn.reset.tcpSendCompleted n true).1 }
      (s.conn.reset.tcpSendCompleted n true).2.2
    refine ⟨⟨?_, ?_⟩, fun h => ?_⟩
    · calc _ ≤ s.outstanding.length + 1 := hlen
        _ = 1 := by rw [hout]; rfl
    · rw [hcomp, hacc]
      exact hpre
    · rw [hc, hconn] at h
      cases h

theorem streaming_step (h : Streaming s) {l : SendAct} (hl : Regular l)
    (hs : step i s l = some s') : Streaming s' := by
  cases l with
  | send q c r payload =>
    obtain ⟨p, hp, hconn, rfl⟩ := step_send hs
    have hfits : Fits p := by
      have := fits_init (q := q) (c := c) (r := r) hl
      rwa [hp] at this
    exact (live_send (h.live hconn) hconn hfits).streaming
  | complete k n internal isRun =>
    obtain ⟨bs, calls, hbs, hconn, hn, hcalls, rfl⟩ := step_complete hs
    -- there is an entry to dequeue only while a post is outstanding
    obtain ⟨q, hq, hfits, h | h | h⟩ := h.live hconn
    · rw [h.outstanding] at hbs
      cases hbs
    · obtain ⟨bs', hout, hpre⟩ := h.outstanding
      obtain ⟨rfl, rfl⟩ : k = 0 ∧ bs' = bs := by
        rw [hout] at hbs
        cases k with
        | zero => exact ⟨rfl, Option.some.inj hbs⟩
        | succ k => cases hbs
      rw [hout]
      have hpre' : s.completed ++ bs'.take n <+: s.accepted := by
        rw [h.bytes]
        exact (List.prefix_append_right_inj _).mpr ((List.take_prefix n bs').trans hpre)
      obtain ⟨calls', hcalls', hcase⟩ := dispatch_send isRun true i n internal
      obtain rfl : calls' = calls := Option.some.inj (hcalls'.symm.trans hcalls)
      rcases hcase with ⟨-, rfl⟩ | rfl | ⟨b, rest, rfl, hrest⟩ | ⟨hrun, hpos, hretry, -⟩
      · exact (live_completed hq hfits hpre h.bytes hn).streaming
      · exact Live.streaming ⟨q, hq, hfits, .inr (.inr ⟨rfl, h.sendLen, hpre'⟩)⟩
      · exact streaming_disconnected rfl hpre' hrest
      · exact absurd ⟨hrun, hpos, hretry⟩ hl
    · rw [h.outstanding] at hbs
      cases hbs

/-- The stream is in order as long as the run is regular. -/
theorem stream_in_order {c : Connection} {ls : List SendAct} (hring : c.sendBuffer.Holds [])
    (hlen : c.sendLen = 0) (hregular : ∀ l ∈ ls, Regular l)
    (hr : run (step i) (start c) ls = some s) : InOrder s :=
  (run_invariant (C := fun _ l => Regular l) (fun _ _ _ h hl hs => streaming_step h hl hs)
    (streaming_start hring hlen) (meets_of_forall_mem fun l hl _ => hregular l hl) hr).inOrder

/-! ## Two posts -/

/-- A completion that reports some, but not all, of the bytes posted and a retryable error is
answered by two posts. -/
theorem retry_posts_twice {q : List PacketData} {bs : Bytes} {n internal : Nat}
    (hconn : s.conn.isConnected = true) (hq : s.conn.sendBuffer.Holds q)
    (hfits : ∀ p ∈ q, Fits p) (hout : s.outstanding = [bs]) (hpre : bs <+: streamBytes q)
    (hpos : 0 < n) (hn : n < bs.length) (hretry : retryable internal) :
    ∃ s', step i s (.complete 0 n internal true) = some s' ∧ s'.outstanding.length = 2 := by
  have hrest : (dropBytes n q).1 ≠ [] := by
    intro he
    have hdrop := streamBytes_dropBytes n fun p hp => (hfits p hp).wf
    have := congrArg List.length hdrop
    rw [he, streamBytes_nil, List.length_nil, List.length_drop] at this
    have := hpre.length_le
    omega
  have hstep : step i s (.complete 0 n internal true) =
      some ([Call.reSendTCP i, .doTCPSend n].foldl call { s with
        outstanding := []
        completed := s.completed ++ bs.take n }) := by
    simp [step, hout, hconn, Nat.not_lt.mpr (Nat.le_of_lt hn), dispatch_retry hpos hretry]
  refine ⟨_, hstep, ?_⟩
  have hq' : (s.conn.reSendTCP true).1.sendBuffer.Holds q := hq
  obtain ⟨ring, -, ⟨hnil, -⟩ | ⟨-, he⟩⟩ := Connection.tcpSendCompleted_spec hq' n true
  · exact absurd hnil hrest
  · show (SendStream.posted _
      ((s.conn.reSendTCP true).1.tcpSendCompleted n true).2.2).outstanding.length = 2
    rw [he]
    rfl

/-- A packet larger than a segment is posted as an empty gather list. The flag stays at 0, and
the next packet is posted beside it. -/
theorem oversized_posts_twice (hconn : s.conn.isConnected = true)
    (hq : s.conn.sendBuffer.Holds []) (hcap : 2 < s.conn.sendBuffer.capacity)
    (hlen : s.conn.sendLen = 0) {p p' : PacketData} (hp : maxTcpSegmentSize < p.size) :
    ((s.sendMsgTCP p).sendMsgTCP p').outstanding.length = s.outstanding.length + 2 := by
  have hempty : ∀ q, gather maxWsabufs 0 0 (p :: q) = [] := by
    intro q
    rw [gather, if_pos (.inr (by rw [Nat.zero_add]; exact hp))]
  rcases sendMsgTCP_spec hq hconn p with ⟨hf, -⟩ | ⟨ring, hring, hc, ⟨hne, -⟩ | ⟨-, he⟩⟩
  · have := hq.isFull_iff.mp hf
    simp only [List.length_nil] at this
    omega
  · exact absurd hlen hne
  · rw [List.nil_append, hempty] at he
    have hconn' : (s.sendMsgTCP p).conn.isConnected = true := by rw [he]; exact hconn
    have hq' : (s.sendMsgTCP p).conn.sendBuffer.Holds [p] := by rw [he]; exact hring
    have hlen' : (s.sendMsgTCP p).conn.sendLen = 0 := by rw [he]; rfl
    have hc' : (s.sendMsgTCP p).conn.sendBuffer.capacity = s.conn.sendBuffer.capacity := by
      rw [he]; exact hc
    rcases sendMsgTCP_spec hq' hconn' p' with ⟨hf, -⟩ | ⟨ring', -, -, ⟨hne, -⟩ | ⟨-, he'⟩⟩
    · have := hq'.isFull_iff.mp hf
      simp only [List.length_singleton] at this
      omega
    · exact absurd hlen' hne
    · rw [he', he]
      simp

/-! ## One packet -/

/-- A connection just accepted on a fresh slot. -/
def connected : Connection := { Connection.new with isConnected := true }

/-- A packet with an empty payload. -/
def helloAct : SendAct := .send (.alloc 0 packetSize) .REQ_SUCCESS 7 []

/-- It is posted at once. -/
theorem step_hello : ∃ s p, step 0 (start connected) helloAct = some s ∧ Fits p ∧
    s.conn.isConnected = true ∧ s.conn.sendBuffer.Holds [p] ∧ s.outstanding = [p.bytes] ∧
      p.bytes.length = 12 := by
  obtain ⟨hok, -, hbytes⟩ := (PacketData.alloc 0 packetSize).init_bytes .REQ_SUCCESS 7
    [] (Nat.zero_le _)
  have hfits : Fits ((PacketData.alloc 0 packetSize).init .REQ_SUCCESS 7 []).1 :=
    fits_init (by decide)
  generalize hp : ((PacketData.alloc 0 packetSize).init .REQ_SUCCESS 7 []).1 = p at *
  have hinit : (PacketData.alloc 0 packetSize).init .REQ_SUCCESS 7 [] = (p, true) :=
    Prod.ext hp hok
  have hq : (start connected).conn.sendBuffer.Holds [] := holds_allocated (by decide)
  have hstep : step 0 (start connected) helloAct = some ((start connected).sendMsgTCP p) := by
    simp [step, helloAct, hinit, start, connected]
  refine ⟨_, p, hstep, hfits, ?_⟩
  rcases sendMsgTCP_spec hq rfl p with ⟨hf, -⟩ | ⟨ring, hring, -, ⟨hne, -⟩ | ⟨-, he⟩⟩
  · exact absurd (hq.isFull_iff.mp hf) (by decide)
  · exact absurd rfl hne
  · rw [he]
    refine ⟨rfl, hring, ?_, by rw [hbytes]; rfl⟩
    rw [List.nil_append, gather_cons hfits.le (by decide)]
    simp [gather, gatheredBytes, start]

/-- Its completion reports all twelve bytes. -/
theorem stream_in_order_hello : ∃ s, run (step 0) (start connected)
    [helloAct, .complete 0 12 0 true] = some s ∧ InOrder s := by
  obtain ⟨s₁, p, hstep, hfits, hconn, hq, hout, hlen⟩ := step_hello
  have hcomplete : ∃ s, step 0 s₁ (.complete 0 12 0 true) = some s := by
    simp [step, hout, hconn, hlen, dispatch, sendEntry]
  obtain ⟨s, hs⟩ := hcomplete
  have hr : run (step 0) (start connected) [helloAct, .complete 0 12 0 true] = some s :=
    run_cons_eq_some.mpr ⟨s₁, hstep, run_cons_eq_some.mpr ⟨s, hs, rfl⟩⟩
  refine ⟨s, hr, stream_in_order (holds_allocated (by decide)) rfl ?_ hr⟩
  intro l hl
  rcases List.mem_cons.mp hl with rfl | hl
  · exact (by decide : (0 : Nat) + sizeofInfoHeader ≤ maxTcpSegmentSize)
  · obtain rfl := List.mem_singleton.mp hl
    intro h
    exact absurd h.2.2 (by decide)

/-- Its completion reports five bytes and `ERROR_NOT_ENOUGH_MEMORY`: two posts are outstanding. -/
theorem stream_broken : ∃ s, run (step 0) (start connected)
    [helloAct, .complete 0 5 errorNotEnoughMemory true] = some s ∧ ¬ InOrder s := by
  obtain ⟨s₁, p, hstep, hfits, hconn, hq, hout, hlen⟩ := step_hello
  have hretry : retryable errorNotEnoughMemory := .inl rfl
  obtain ⟨s, hs, htwo⟩ := retry_posts_twice (i := 0) (n := 5)
    hconn hq (by simpa using hfits) hout (by simp) (by omega) (by omega) hretry
  refine ⟨s, run_cons_eq_some.mpr ⟨s₁, hstep, run_cons_eq_some.mpr ⟨s, hs, rfl⟩⟩, fun h => ?_⟩
  have := h.1
  omega

end SendStream

end RacingGameServer
