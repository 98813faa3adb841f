import SocketServerLib.RacingGameServer.Sessions
import SocketServerLib.RacingGameServer.SendStream

/-
  One session from its bytes in to its bytes out: the workers in `HandleReq(i)` of `Sessions`,
  where `sendFunc` is `SendMsgTCP` on the connection of the slot, and the completions of its
  `WSASend` posts of `SendStream`.

  A `UDPEchoJob` is answered by `SendMsgUDP`, which does not touch the connection; what it returns
  is left open.

  What is proved:
    1. `execute_reply` — the packet of a job is the reply to its request, and fits a segment.
    2. `step_inv` — a step keeps `Due`: the bytes that `SendMsgTCP` has accepted are the replies
       to the frames answered so far, and the job in hand belongs to the next one.
    3. `replies_in_order` — at every point of a session the completed bytes are a prefix of the
       replies to its first frames, in order and each once, and at most one post is outstanding;
       at rest they are the replies to all of its complete frames.

  What is assumed: every post succeeds, and what `SendMsgTCP` does under its lock is one step.
-/
namespace RacingGameServer

open TryLock LabelledRun PrefixFraming
open Connection (reqFraming)
open SendStream (Live Fits Regular Streaming)

/-- What the workers and the dispatcher share. -/
structure Pipe where
  slot : Slot
  outstanding : List Bytes
  accepted : Bytes
  completed : Bytes

/-- The packet that a job's `Execute` makes, with the token it was given. -/
def Job.reply (j : Job) (token : Nat) : Bytes :=
  leEncode 4 ((j.response token).length + 12) ++ leEncode 4 0 ++ leEncode 4 j.reqNo ++
    j.response token

/-- What of it goes into the TCP stream. -/
def Job.streamed (j : Job) (token : Nat) : Bytes :=
  match j.kind.protocol with
  | .TCP => j.reply token
  | .UDP => []

/-- The stream is the replies to the jobs that `CreateJob` makes of the frames, in order. -/
inductive Replies (i : Nat) : List Bytes → Bytes → Prop
  | nil : Replies i [] []
  | snoc {fs f bs a o j} (token : Nat) : Replies i fs bs → createJob a i o f = some j →
      Replies i (fs ++ [f]) (bs ++ j.streamed token)

namespace Pipe

def stream (p : Pipe) : SendStream :=
  { conn := p.slot.conn, outstanding := p.outstanding, accepted := p.accepted
    completed := p.completed }

def withStream (p : Pipe) (t : SendStream) : Pipe :=
  { slot := { p.slot with conn := t.conn }, outstanding := t.outstanding, accepted := t.accepted
    completed := t.completed }

/-- `SendMsgFunc` on the packet of the job; `udp` is what `SendMsgUDP` returns. -/
def sendFunc (p : Pipe) (udp : Bool) : Pipe × Bool :=
  match p.slot.job with
  | none => (p, false)
  | some j =>
    match j.packet with
    | none => (p, false)
    | some q =>
      match j.kind.protocol with
      | .TCP => (p.withStream (p.stream.sendMsgTCP q), (p.slot.conn.sendMsgTCP (some q) true).2.1)
      | .UDP => (p, udp)

/-- One step of a call; `SendRes` gets what `sendFunc` returns. -/
def step (i : Nat) (a : Answers) (p : Pipe) (pc : Pc) : Pipe × Pc :=
  if pc = .switch .SEND then
    let r := p.sendFunc a.sent
    ({ r.1 with slot := (r.1.slot.step i { a with sent := r.2 } pc).1 },
      (r.1.slot.step i { a with sent := r.2 } pc).2)
  else ({ p with slot := (p.slot.step i a pc).1 }, (p.slot.step i a pc).2)

end Pipe

structure Pipeline (W : Type*) where
  pipe : Pipe
  pcs : W → Option Pc

/-- As in `Sessions`; `complete` is the completion of post number `k` of the session. -/
inductive PipeAct (W : Type*) where
  | call (w : W)
  | move (w : W) (a : Answers)
  | recv (chunk : Bytes)
  | complete (k iosize internal : Nat) (isRun : Bool)

namespace Pipeline

variable {W : Type*} [DecidableEq W] (i : Nat)

/-- A session accepted on a fresh slot. -/
def init : Pipeline W :=
  { pipe := { slot := Slot.new.accept, outstanding := [], accepted := [], completed := [] }
    pcs := fun _ => none }

def step (s : Pipeline W) : PipeAct W → Option (Pipeline W)
  | .call w =>
    match s.pcs w with
    | none | some (.ret _) => some { s with pcs := Function.update s.pcs w (some .tryLock) }
    | _ => none
  | .move w a =>
    match s.pcs w with
    | none => none
    | some pc =>
      some { pipe := (s.pipe.step i a pc).1
             pcs := Function.update s.pcs w (some (s.pipe.step i a pc).2) }
  | .recv chunk =>
    if 0 < chunk.length ∧ chunk.length ≤ maxSockbuf then
      some { s with pipe := { s.pipe with slot := (s.pipe.slot.recv chunk).1 } }
    else none
  | .complete k iosize internal isRun =>
    (s.pipe.stream.step i (.complete k iosize internal isRun)).map fun t =>
      { s with pipe := s.pipe.withStream t }

/-- The steps of a session: its bytes are stored, `CreateJob` makes a job of each frame, and a
completion does not end the session nor post twice. -/
def PipeStep (s : Pipeline W) : PipeAct W → Prop
  | .call _ => True
  | .move w a => ∀ pc ∈ s.pcs w, s.pipe.slot.Accepts i a pc
  | .recv chunk => (s.pipe.slot.recv chunk).2 = true
  | .complete _ iosize internal isRun =>
    dispatch isRun true (sendEntry i iosize internal) = some [.doTCPSend iosize] ∨
      dispatch isRun true (sendEntry i iosize internal) = some []

instance (s : Pipeline W) : DecidablePred (PipeStep i s) := fun l => by
  cases l <;> simp only [PipeStep] <;> infer_instance

end Pipeline

/-! ## The packet of a job -/

variable {i : Nat}

/-- What a job answers with is short. -/
theorem createJob_response {a : Answers} {o : Nat} {f : Bytes} {j : Job}
    (h : createJob a i o f = some j) (token : Nat) : (j.response token).length ≤ 84 := by
  have hparse : ∀ (k : JobKind) (pl : Bytes) (j₀ : Job), k.new.parse pl = (j₀, true) →
      (j₀.response token).length ≤ 84 := by
    intro k pl j₀ hj
    by_cases hk : k = .ReqTokenJob
    · subst hk
      obtain rfl := (Prod.mk.inj hj).1
      simp [Job.response, JobKind.new]
    · rw [JobKind.parse_param hk] at hj
      split at hj
      · cases hj
      · next hlen =>
        obtain rfl := (Prod.mk.inj hj).1
        simp only [sizeofEchoParameter] at hlen
        cases k with
        | ReqTokenJob => exact absurd rfl hk
        | EchoJob => simp only [Job.response, JobKind.new, sizeofEchoParameter,
            List.length_append, List.length_replicate]; omega
        | UDPEchoJob => simp only [Job.response, JobKind.new, sizeofEchoParameter,
            List.length_append, List.length_replicate]; omega
  simp only [createJob] at h
  split at h
  · cases h
  split at h
  · cases h
  split at h
  · cases h
  split at h
  · cases h
  split at h
  · cases h
  split at h
  · cases h
  · next j₀ hj₀ =>
    obtain rfl := Option.some.inj h
    exact hparse _ _ j₀ hj₀

/-- A successful `Execute` makes the reply, and this fits a segment. -/
theorem execute_reply {a : Answers} {j j' : Job} {p : PacketData} {freed : List PacketData}
    (hshort : (j.response a.token).length ≤ 84) (h : j.execute a = (j', true, freed))
    (hp : j'.packet = some p) : p.bytes = j.reply a.token ∧ Fits p := by
  unfold Job.execute at h
  split at h
  · cases h
  · next q _ =>
    have hle : (j.response a.token).length ≤ maxPayloadSize :=
      Nat.le_trans hshort (by decide)
    have hseg : (j.response a.token).length + sizeofInfoHeader ≤ maxTcpSegmentSize := by
      simp only [sizeofInfoHeader, maxTcpSegmentSize]
      omega
    obtain ⟨-, -, hbytes⟩ := q.init_bytes .REQ_SUCCESS j.reqNo _ hle
    have hfits : Fits (q.init .REQ_SUCCESS j.reqNo (j.response a.token)).1 :=
      SendStream.fits_init hseg
    split at h
    · cases h
    · next q' hq' =>
      rw [hq'] at hbytes hfits
      obtain ⟨rfl, -⟩ := Prod.mk.inj h
      obtain rfl := Option.some.inj hp
      exact ⟨hbytes, hfits.wf, hfits.pos, hfits.le⟩

/-! ## The sending side of a connection and the rest of it -/

/-- `SendMsgTCP` touches the sending side alone. -/
theorem Connection.sendMsgTCP_keeps (c : Connection) (p : PacketData) (post : Bool) :
    (c.sendMsgTCP (some p) post).1.recvBuffer = c.recvBuffer ∧
      (c.sendMsgTCP (some p) post).1.jobProcess = c.jobProcess ∧
      (c.sendMsgTCP (some p) post).1.isConnected = c.isConnected := by
  unfold Connection.sendMsgTCP
  split
  · exact ⟨rfl, rfl, rfl⟩
  · rcases c.sendMsgTCPLocked_cases p post with ⟨-, h⟩ | ⟨-, -, h⟩ | ⟨-, -, h⟩
    · rw [h]
      exact ⟨rfl, rfl, rfl⟩
    · rw [h]
      exact ⟨rfl, rfl, rfl⟩
    · rw [h]
      exact ⟨rfl, rfl, rfl⟩

/-- A completion that is handled touches the sending side alone. -/
theorem Connection.tcpSendCompleted_keeps (c : Connection) (n : Nat) (post : Bool) :
    (c.tcpSendCompleted n post).1.recvBuffer = c.recvBuffer ∧
      (c.tcpSendCompleted n post).1.jobProcess = c.jobProcess ∧
      (c.tcpSendCompleted n post).1.isConnected = c.isConnected := by
  unfold Connection.tcpSendCompleted
  simp only []
  split
  · exact ⟨rfl, rfl, rfl⟩
  · exact ⟨rfl, rfl, rfl⟩

/-- A step of a call leaves the sending side. -/
theorem Slot.step_sending {a : Answers} {s : Slot} (pc : Pc) :
    (s.step i a pc).1.conn.sendBuffer = s.conn.sendBuffer ∧
      (s.step i a pc).1.conn.sendWsaBuf = s.conn.sendWsaBuf ∧
      (s.step i a pc).1.conn.isConnected = s.conn.isConnected := by
  cases pc with
  | tryLock =>
    simp only [Slot.step]
    split
    · exact ⟨rfl, rfl, rfl⟩
    · exact ⟨rfl, rfl, rfl⟩
  | getJobProcess => exact ⟨rfl, rfl, rfl⟩
  | setJobProcess e c => exact ⟨rfl, rfl, rfl⟩
  | unlock c => exact ⟨rfl, rfl, rfl⟩
  | ret c => exact ⟨rfl, rfl, rfl⟩
  | popReqMsg len => exact ⟨rfl, rfl, rfl⟩
  | createJob len o =>
    rcases Slot.createReq_cases (i := i) a len o s with ⟨-, h⟩ | ⟨j, -, h⟩
    · simp only [Slot.step, h, and_self]
    · simp only [Slot.step, h, and_self]
  | switch e =>
    cases e with
    | PARSING =>
      simp only [Slot.step]
      split
      · exact ⟨rfl, rfl, rfl⟩
      · exact ⟨rfl, rfl, rfl⟩
    | EXECUTE =>
      rcases Slot.executeReq_cases a s with ⟨j, p, freed, -, -, -, h⟩ | h
      · simp only [Slot.step, h, and_self]
      · simp only [Slot.step, h, and_self]
    | SEND =>
      rcases Slot.sendRes_cases a.sent s with ⟨j, p, -, -, -, h⟩ | ⟨-, h⟩
      · simp only [Slot.step, h, and_self]
      · simp only [Slot.step, h, and_self]

/-- The stream reads the sending side alone. -/
theorem SendStream.Live.congr {s s' : SendStream} (h : Live s)
    (hring : s'.conn.sendBuffer = s.conn.sendBuffer)
    (hwsa : s'.conn.sendWsaBuf = s.conn.sendWsaBuf) (hout : s'.outstanding = s.outstanding)
    (hacc : s'.accepted = s.accepted) (hcomp : s'.completed = s.completed) : Live s' := by
  have hlen : s'.conn.sendLen = s.conn.sendLen := by
    rw [Connection.sendLen, Connection.sendLen, hwsa]
  obtain ⟨q, hq, hfits, h⟩ := h
  refine ⟨q, hring ▸ hq, hfits, ?_⟩
  rcases h with ⟨hnil, ho, hl, hb⟩ | ⟨ho, hl, hb⟩ | ⟨ho, hl, hb⟩
  · exact .inl ⟨hnil, hout.trans ho, hlen.trans hl, hacc.trans (hb.trans hcomp.symm)⟩
  · refine .inr (.inl ⟨?_, ?_, ?_⟩)
    · rw [hout]
      exact ho
    · rw [hlen]
      exact hl
    · rw [hacc, hcomp]
      exact hb
  · refine .inr (.inr ⟨hout.trans ho, ?_, ?_⟩)
    · rw [hlen]
      exact hl
    · rw [hacc, hcomp]
      exact hb

namespace Pipe

/-! ## What is due -/

/-- What a call that resumes in this phase finds. -/
def Due (i : Nat) (p : Pipe) : JobProcess → Prop
  | .PARSING => ∃ fs, reqFraming.Splits p.slot.hist.received fs p.slot.conn.recvBuffer.bytes ∧
      Replies i fs p.accepted ∧ p.slot.job = none
  | .EXECUTE => ∃ fs f a o j,
      reqFraming.Splits p.slot.hist.received (fs ++ [f]) p.slot.conn.recvBuffer.bytes ∧
      Replies i fs p.accepted ∧ createJob a i o f = some j ∧ p.slot.job = some j
  | .SEND => ∃ fs f a o j token j' q,
      reqFraming.Splits p.slot.hist.received (fs ++ [f]) p.slot.conn.recvBuffer.bytes ∧
      Replies i fs p.accepted ∧ createJob a i o f = some j ∧ p.slot.job = some j' ∧
      j'.kind = j.kind ∧ j'.packet = some q ∧ q.bytes = j.reply token ∧ Fits q

/-- While the lock is free. -/
def DueFree (i : Nat) (p : Pipe) : Prop :=
  p.slot.conn.RecvWf ∧ p.Due i p.slot.conn.jobProcess

/-- At the holder's program point. -/
def DueAt (i : Nat) (p : Pipe) (pc : Pc) : Prop :=
  p.slot.conn.RecvWf ∧
    match pc with
    | .getJobProcess | .unlock _ => p.Due i p.slot.conn.jobProcess
    | .switch e | .setJobProcess e _ => p.Due i e
    | .createJob len _ =>
      p.Due i .PARSING ∧ reqFraming.next p.slot.conn.recvBuffer.bytes = some len
    | .popReqMsg len => reqFraming.next p.slot.conn.recvBuffer.bytes = some len ∧
        Due i { p with slot := p.slot.popReqMsg len } .EXECUTE
    | .tryLock | .ret _ => True

variable {p p' : Pipe} {a : Answers} {pc : Pc} {e : JobProcess}

theorem Due.congr (h : p.Due i e) (hreceived : p'.slot.hist.received = p.slot.hist.received)
    (hbytes : p'.slot.conn.recvBuffer = p.slot.conn.recvBuffer)
    (hacc : p'.accepted = p.accepted) (hjob : p'.slot.job = p.slot.job) : p'.Due i e := by
  cases e with
  | PARSING =>
    simp only [Due, hreceived, hbytes, hacc, hjob]
    exact h
  | EXECUTE =>
    simp only [Due, hreceived, hbytes, hacc, hjob]
    exact h
  | SEND =>
    simp only [Due, hreceived, hbytes, hacc, hjob]
    exact h

theorem RecvWf.congr {c c' : Connection} (h : c.RecvWf) (hbuffer : c'.recvBuffer = c.recvBuffer) :
    c'.RecvWf := ⟨hbuffer ▸ h.buffer, hbuffer ▸ h.capacity_eq⟩

/-- What is due depends on the receiving side, the job and the accepted bytes. -/
theorem DueAt.congr (h : p.DueAt i pc) (hreceived : p'.slot.hist.received = p.slot.hist.received)
    (hbytes : p'.slot.conn.recvBuffer = p.slot.conn.recvBuffer)
    (hphase : p'.slot.conn.jobProcess = p.slot.conn.jobProcess)
    (hacc : p'.accepted = p.accepted) (hjob : p'.slot.job = p.slot.job) : p'.DueAt i pc := by
  obtain ⟨hwf, h⟩ := h
  refine ⟨RecvWf.congr hwf hbytes, ?_⟩
  have hdue : ∀ e, p.Due i e → p'.Due i e := fun e h => h.congr hreceived hbytes hacc hjob
  cases pc with
  | tryLock => trivial
  | ret c => trivial
  | getJobProcess =>
    rw [hphase]
    exact hdue _ h
  | unlock c =>
    rw [hphase]
    exact hdue _ h
  | switch e => exact hdue e h
  | setJobProcess e c => exact hdue e h
  | createJob len o =>
    rw [hbytes]
    exact ⟨hdue _ h.1, h.2⟩
  | popReqMsg len =>
    rw [hbytes]
    refine ⟨h.1, h.2.congr hreceived ?_ hacc hjob⟩
    show (p'.slot.conn.recvBuffer.pop len).1 = (p.slot.conn.recvBuffer.pop len).1
    rw [hbytes]

/-- New input goes behind what is there. -/
theorem due_recv (hwf : p.slot.conn.RecvWf) {chunk : Bytes} (hlen : chunk.length ≤ maxSockbuf)
    (hok : (p.slot.recv chunk).2 = true) (h : p.Due i e) :
    Due i { p with slot := (p.slot.recv chunk).1 } e := by
  have hb := (Slot.recv_ok hwf hlen hok).2
  cases e with
  | PARSING =>
    obtain ⟨fs, hs, hrest⟩ := h
    exact ⟨fs, by rw [hb]; exact hs.append chunk, hrest⟩
  | EXECUTE =>
    obtain ⟨fs, f, b, o, j, hs, hrest⟩ := h
    exact ⟨fs, f, b, o, j, by rw [hb]; exact hs.append chunk, hrest⟩
  | SEND =>
    obtain ⟨fs, f, b, o, j, token, j', q, hs, hrest⟩ := h
    exact ⟨fs, f, b, o, j, token, j', q, by rw [hb]; exact hs.append chunk, hrest⟩

theorem dueAt_recv {chunk : Bytes} (hlen : chunk.length ≤ maxSockbuf)
    (hok : (p.slot.recv chunk).2 = true) (h : p.DueAt i pc) :
    DueAt i { p with slot := (p.slot.recv chunk).1 } pc := by
  obtain ⟨hwf, h⟩ := h
  obtain ⟨hwf', hb⟩ := Slot.recv_ok hwf hlen hok
  refine ⟨hwf', ?_⟩
  have hnext : ∀ {n}, reqFraming.next p.slot.conn.recvBuffer.bytes = some n →
      reqFraming.next (p.slot.recv chunk).1.conn.recvBuffer.bytes = some n := by
    intro n hn
    rw [hb]
    exact reqFraming.stable chunk hn
  cases pc with
  | tryLock => trivial
  | ret c => trivial
  | getJobProcess => exact due_recv hwf hlen hok h
  | unlock c => exact due_recv hwf hlen hok h
  | switch e => exact due_recv hwf hlen hok h
  | setJobProcess e c => exact due_recv hwf hlen hok h
  | createJob len o => exact ⟨due_recv hwf hlen hok h.1, hnext h.2⟩
  | popReqMsg len =>
    -- storing and popping commute, since the frame to pop is complete
    obtain ⟨hn, fs, f, b, o, j, hs, hrest⟩ := h
    refine ⟨hnext hn, fs, f, b, o, j, ?_, hrest⟩
    have hpop : ((p.slot.recv chunk).1.popReqMsg len).conn.recvBuffer.bytes =
        (p.slot.popReqMsg len).conn.recvBuffer.bytes ++ chunk := by
      have hpop := hwf'.bytes_pop (hnext hn)
      rw [hb, PrefixFraming.drop_append_of_next hn] at hpop
      exact hpop.trans (congrArg (· ++ chunk) (hwf.bytes_pop hn).symm)
    show reqFraming.Splits _ _ ((p.slot.recv chunk).1.popReqMsg len).conn.recvBuffer.bytes
    rw [hpop]
    exact hs.append chunk

/-- A step that does not call `sendFunc`. -/
theorem dueAt_step (hc : pc.Critical) (hu : ∀ c, pc ≠ .unlock c) (hsend : pc ≠ .switch .SEND)
    (hjob : p.slot.Accepts i a pc) (h : p.DueAt i pc) :
    DueAt i { p with slot := (p.slot.step i a pc).1 } (p.slot.step i a pc).2 := by
  obtain ⟨hwf, h⟩ := h
  cases pc with
  | tryLock => exact absurd hc id
  | ret c => exact absurd hc id
  | unlock c => exact absurd rfl (hu c)
  | getJobProcess => exact ⟨hwf, h⟩
  | setJobProcess e c => exact ⟨⟨hwf.buffer, hwf.capacity_eq⟩, h.congr rfl rfl rfl rfl⟩
  | popReqMsg len => exact ⟨hwf.pop len, h.2⟩
  | createJob len o =>
    -- the frame counts as cut from here on, as in `Sessions`
    obtain ⟨⟨fs, hs, hreplies, -⟩, hn⟩ := h
    rcases Slot.createReq_cases (i := i) a len o p.slot with ⟨hnone, -⟩ | ⟨j, hj, he⟩
    · rw [Slot.Accepts, hnone] at hjob
      cases hjob
    · simp only [Slot.step, he]
      refine ⟨hwf, hn, fs, p.slot.conn.recvBuffer.bytes.take len, a, o, j, ?_, hreplies, ?_, rfl⟩
      · show reqFraming.Splits _ _ (p.slot.conn.popRecvBuffer len).recvBuffer.bytes
        rw [hwf.bytes_pop hn]
        exact hs.snoc hn
      · rwa [← Connection.view_eq hwf hn]
  | switch e =>
    cases e with
    | PARSING =>
      simp only [Slot.step]
      split
      · exact ⟨hwf, h⟩
      · next len hn => exact ⟨hwf, h, (Connection.getReqMessage_eq hwf) ▸ hn⟩
    | EXECUTE =>
      obtain ⟨fs, f, b, o, j, hs, hreplies, hcreate, hj⟩ := h
      rcases Slot.executeReq_cases a p.slot with ⟨j', q, freed, hj', hrun, -, he⟩ | he
      · obtain rfl : j = j' := Option.some.inj (hj.symm.trans hj')
        obtain ⟨hbytes, hfits⟩ := execute_reply (createJob_response hcreate a.token) hrun rfl
        simp only [Slot.step, he]
        exact ⟨hwf, fs, f, b, o, j, a.token, _, q, hs, hreplies, hcreate, rfl, rfl, rfl, hbytes,
          hfits⟩
      · simp only [Slot.step, he]
        exact ⟨hwf, fs, f, b, o, j, hs, hreplies, hcreate, hj⟩
    | SEND => exact absurd rfl hsend

/-- `sendFunc` accepts the whole packet, or nothing. -/
theorem sendFunc_spec {j : Job} {q : PacketData} (hj : p.slot.job = some j)
    (hq : j.packet = some q) (udp : Bool) :
    (p.sendFunc udp).1.slot.job = some j ∧
      (p.sendFunc udp).1.slot.hist = p.slot.hist ∧
      (p.sendFunc udp).1.slot.flag = p.slot.flag ∧
      (p.sendFunc udp).1.slot.conn.recvBuffer = p.slot.conn.recvBuffer ∧
      (p.sendFunc udp).1.slot.conn.jobProcess = p.slot.conn.jobProcess ∧
      (p.sendFunc udp).1.slot.conn.isConnected = p.slot.conn.isConnected ∧
      (p.sendFunc udp).1.accepted =
        if (p.sendFunc udp).2 = true ∧ j.kind.protocol = .TCP then p.accepted ++ q.bytes
        else p.accepted := by
  simp only [sendFunc, hj, hq]
  cases hproto : j.kind.protocol with
  | UDP => exact ⟨hj, rfl, rfl, rfl, rfl, rfl, (if_neg fun h => by cases h.2).symm⟩
  | TCP =>
    obtain ⟨-, -, hacc, hconn⟩ := SendStream.outstanding_posted
      { p.stream with
        conn := (p.slot.conn.sendMsgTCP (some q) true).1
        accepted := if (p.slot.conn.sendMsgTCP (some q) true).2.1 then p.accepted ++ q.bytes
          else p.accepted }
      (p.slot.conn.sendMsgTCP (some q) true).2.2
    have hconn : (p.stream.sendMsgTCP q).conn = (p.slot.conn.sendMsgTCP (some q) true).1 := hconn
    obtain ⟨hrecv, hphase, hlink⟩ := p.slot.conn.sendMsgTCP_keeps q true
    refine ⟨hj, rfl, rfl, ?_, ?_, ?_, ?_⟩
    · exact (congrArg Connection.recvBuffer hconn).trans hrecv
    · exact (congrArg Connection.jobProcess hconn).trans hphase
    · exact (congrArg Connection.isConnected hconn).trans hlink
    · simp only [and_true]
      exact hacc

/-- `SendRes`: the reply is accepted with the job, or the job stays. -/
theorem dueAt_send (h : p.DueAt i (.switch .SEND)) :
    DueAt i (p.step i a (.switch .SEND)).1 (p.step i a (.switch .SEND)).2 := by
  obtain ⟨hwf, fs, f, b, o, j, token, j', q, hs, hreplies, hcreate, hj, hkind, hq, hbytes,
    hfits⟩ := h
  obtain ⟨hjob, hhist, -, hrecv, -, -, hacc⟩ := sendFunc_spec hj hq a.sent
  have hwf' := RecvWf.congr hwf hrecv
  simp only [step, if_true, Slot.step]
  rcases Slot.sendRes_cases (p.sendFunc a.sent).2 (p.sendFunc a.sent).1.slot with
    ⟨j'', q', hj'', hq', hsent, he⟩ | ⟨hnot, he⟩
  · rw [he]
    refine ⟨hwf', fs ++ [f], ?_, ?_, rfl⟩
    · show reqFraming.Splits (p.sendFunc a.sent).1.slot.hist.received _
        (p.sendFunc a.sent).1.slot.conn.recvBuffer.bytes
      rw [hhist, hrecv]
      exact hs
    · show Replies i (fs ++ [f]) (p.sendFunc a.sent).1.accepted
      have hstream : (p.sendFunc a.sent).1.accepted = p.accepted ++ j.streamed token := by
        rw [hacc, hsent, hkind, Job.streamed, hbytes]
        cases j.kind.protocol with
        | TCP => exact if_pos ⟨rfl, rfl⟩
        | UDP =>
          rw [if_neg (by decide)]
          exact (List.append_nil _).symm
      rw [hstream]
      exact hreplies.snoc token hcreate
  · rw [he]
    have hsent : (p.sendFunc a.sent).2 = false := by
      refine hnot.resolve_right fun hnone => ?_
      rw [hjob, Option.bind_some, hq] at hnone
      cases hnone
    refine ⟨hwf', fs, f, b, o, j, token, j', q, ?_, ?_, hcreate, hjob, hkind, hq, hbytes, hfits⟩
    · show reqFraming.Splits (p.sendFunc a.sent).1.slot.hist.received _
        (p.sendFunc a.sent).1.slot.conn.recvBuffer.bytes
      rw [hhist, hrecv]
      exact hs
    · rw [hsent, if_neg fun h => by cases h.1] at hacc
      show Replies i fs (p.sendFunc a.sent).1.accepted
      rw [hacc]
      exact hreplies

/-- The lock after a step is that of the call's machine. -/
theorem step_flag (i : Nat) (a : Answers) (p : Pipe) (pc : Pc) :
    ∃ slot : Slot, ∃ b : Answers, slot.flag = p.slot.flag ∧
      (p.step i a pc).1.slot = (slot.step i b pc).1 ∧ (p.step i a pc).2 = (slot.step i b pc).2 := by
  by_cases hsend : pc = .switch .SEND
  · refine ⟨(p.sendFunc a.sent).1.slot, { a with sent := (p.sendFunc a.sent).2 }, ?_, ?_, ?_⟩
    · unfold sendFunc
      split
      · rfl
      split
      · rfl
      split
      · rfl
      · rfl
    · rw [step, if_pos hsend]
    · rw [step, if_pos hsend]
  · refine ⟨p.slot, a, rfl, ?_, ?_⟩
    · rw [step, if_neg hsend]
    · rw [step, if_neg hsend]

/-- One step of one call, under the lock of the slot. -/
theorem guarded_step {W : Type*} [DecidableEq W] {pcs : W → Option Pc} {w : W}
    (h : Guarded (fun p => p.slot.flag) Pc.Critical (DueFree i) (DueAt i) p pcs)
    (hw : pcs w = some pc) (hjob : p.slot.Accepts i a pc) :
    Guarded (fun p => p.slot.flag) Pc.Critical (DueFree i) (DueAt i) (p.step i a pc).1
      (Function.update pcs w (some (p.step i a pc).2)) := by
  by_cases hc : pc.Critical
  · obtain ⟨hflag, hat⟩ := h.held w pc hw hc
    obtain ⟨slot, b, hsame, hslot, hpc⟩ := step_flag i a p pc
    rcases Slot.step_critical (i := i) b slot hc with ⟨c, rfl⟩ | ⟨hf, hc'⟩
    · exact h.release hw hc rfl ⟨hat.1, hat.2.congr rfl rfl rfl rfl⟩ id
    · rw [← hpc] at hc'
      refine h.inside hw hc (hslot ▸ hf.trans (hsame.trans hflag)) ?_ hc'
      by_cases hsend : pc = .switch .SEND
      · rw [hsend] at hat ⊢
        exact dueAt_send hat
      · have hu : ∀ c, pc ≠ .unlock c := by
          intro c he
          rw [he] at hc'
          exact absurd hc' (by rw [step, if_neg (by rw [he] at hsend; exact hsend)]; exact id)
        rw [step, if_neg hsend]
        exact dueAt_step hc hu hsend hjob hat
  · cases pc with
    | tryLock =>
      cases hf : p.slot.flag with
      | true =>
        simp only [step, Slot.step, hf, if_true, reduceCtorEq, if_false]
        have hfree := h.free hf
        exact h.acquire hf rfl ⟨hfree.1, hfree.2.congr rfl rfl rfl rfl⟩ trivial
      | false =>
        simp only [step, Slot.step, hf, Bool.false_eq_true, reduceCtorEq, if_false]
        exact h.idle (fun x hx => by rw [hw] at hx; cases hx; exact id)
          (fun x hx => by cases hx; exact id)
    | ret c =>
      simp only [step, Slot.step, reduceCtorEq, if_false]
      exact h.idle (fun x hx => by rw [hw] at hx; cases hx; exact id)
        (fun x hx => by cases hx; exact id)
    | _ => exact absurd trivial hc

/-- The stream of a step: only `sendFunc` touches it, with a packet that fits. -/
theorem live_step (hlive : Live p.stream) (hconn : p.slot.conn.isConnected = true)
    (hat : pc = .switch .SEND → p.DueAt i pc) :
    Live (p.step i a pc).1.stream ∧ (p.step i a pc).1.slot.conn.isConnected = true := by
  by_cases hsend : pc = .switch .SEND
  · obtain ⟨-, fs, f, b, o, j, token, j', q, -, -, -, hj, -, hq, -, hfits⟩ := hsend ▸ hat hsend
    have hlive' : Live (p.sendFunc a.sent).1.stream := by
      simp only [sendFunc, hj, hq]
      cases j'.kind.protocol with
      | UDP => exact hlive
      | TCP => exact SendStream.live_send hlive hconn hfits
    obtain ⟨-, -, -, -, -, hlink, -⟩ := sendFunc_spec hj hq a.sent
    obtain ⟨hring, hwsa, hstill⟩ := Slot.step_sending (i := i) (s := (p.sendFunc a.sent).1.slot)
      (a := { a with sent := (p.sendFunc a.sent).2 }) pc
    rw [step, if_pos hsend]
    exact ⟨hlive'.congr hring hwsa rfl rfl rfl, hstill.trans (hlink.trans hconn)⟩
  · obtain ⟨hring, hwsa, hstill⟩ := Slot.step_sending (i := i) (s := p.slot) (a := a) pc
    rw [step, if_neg hsend]
    exact ⟨hlive.congr hring hwsa rfl rfl rfl, hstill.trans hconn⟩

/-- A completion that is handled or dropped leaves the receiving side. -/
theorem complete_keeps {t : SendStream} {k n internal : Nat} {isRun : Bool}
    (hcalls : dispatch isRun true (sendEntry i n internal) = some [.doTCPSend n] ∨
      dispatch isRun true (sendEntry i n internal) = some [])
    (ht : p.stream.step i (.complete k n internal isRun) = some t) :
    Regular (.complete k n internal isRun) ∧ t.conn.recvBuffer = p.slot.conn.recvBuffer ∧
      t.conn.jobProcess = p.slot.conn.jobProcess ∧
      t.conn.isConnected = p.slot.conn.isConnected ∧ t.accepted = p.accepted := by
  obtain ⟨bs, calls, -, -, -, hdispatch, rfl⟩ := SendStream.step_complete ht
  refine ⟨?_, ?_⟩
  · rintro ⟨hrun, hpos, hretry⟩
    subst hrun
    rw [dispatch_retry hpos hretry] at hcalls
    rcases hcalls with hcalls | hcalls
    · cases hcalls
    · cases hcalls
  · rcases hcalls with hcalls | hcalls
    · obtain rfl := Option.some.inj (hdispatch.symm.trans hcalls)
      obtain ⟨hrecv, hphase, hlink⟩ := p.slot.conn.tcpSendCompleted_keeps n true
      obtain ⟨-, -, hacc, hconn⟩ := SendStream.outstanding_posted
        { p.stream with
          conn := (p.slot.conn.tcpSendCompleted n true).1
          outstanding := p.stream.outstanding.eraseIdx k
          completed := p.stream.completed ++ bs.take n }
        (p.slot.conn.tcpSendCompleted n true).2.2
      refine ⟨?_, ?_, ?_, hacc⟩
      · exact (congrArg Connection.recvBuffer hconn).trans hrecv
      · exact (congrArg Connection.jobProcess hconn).trans hphase
      · exact (congrArg Connection.isConnected hconn).trans hlink
    · obtain rfl := Option.some.inj (hdispatch.symm.trans hcalls)
      exact ⟨rfl, rfl, rfl, rfl⟩

/-- The replies so far belong to the first frames of the stream; once all of these are cut and
answered, to all of them. -/
theorem Due.streamed (h : p.Due i e) :
    ∃ fs, fs <+: reqFraming.frames p.slot.hist.received ∧ Replies i fs p.accepted ∧
      (e = .PARSING → reqFraming.next p.slot.conn.recvBuffer.bytes = none →
        fs = reqFraming.frames p.slot.hist.received) := by
  cases e with
  | PARSING =>
    obtain ⟨fs, hs, hreplies, -⟩ := h
    refine ⟨fs, ⟨_, hs.frames_eq.symm⟩, hreplies, fun _ hnone => ?_⟩
    rw [hs.frames_eq, frames_of_none hnone, List.append_nil]
  | EXECUTE =>
    obtain ⟨fs, f, b, o, j, hs, hreplies, -⟩ := h
    refine ⟨fs, ?_, hreplies, fun he => by cases he⟩
    rw [hs.frames_eq, List.append_assoc]
    exact List.prefix_append _ _
  | SEND =>
    obtain ⟨fs, f, b, o, j, token, j', q, hs, hreplies, -⟩ := h
    refine ⟨fs, ?_, hreplies, fun he => by cases he⟩
    rw [hs.frames_eq, List.append_assoc]
    exact List.prefix_append _ _

end Pipe

namespace Pipeline

variable {W : Type*} [DecidableEq W] {s s' : Pipeline W} {l : PipeAct W}

/-- What every state of a session satisfies. -/
structure Inv (i : Nat) (s : Pipeline W) : Prop where
  guarded : Guarded (fun p => p.slot.flag) Pc.Critical (Pipe.DueFree i) (Pipe.DueAt i) s.pipe s.pcs
  live : Live s.pipe.stream
  connected : s.pipe.slot.conn.isConnected = true

omit [DecidableEq W] in
theorem inv_init : Inv i (init : Pipeline W) where
  guarded := .init rfl ⟨⟨Connection.recvWf_new.buffer, rfl⟩, [], .nil [], .nil, rfl⟩ fun _ => rfl
  live := ⟨[], SendBuffer.holds_allocated (by decide), fun _ hp => (by cases hp),
    .inl ⟨rfl, rfl, rfl, rfl⟩⟩
  connected := rfl

theorem Inv.move (h : Inv i s) {w : W} {a : Answers} {pc : Pc} (hw : s.pcs w = some pc)
    (hjob : s.pipe.slot.Accepts i a pc) :
    Inv i { pipe := (s.pipe.step i a pc).1
            pcs := Function.update s.pcs w (some (s.pipe.step i a pc).2) } := by
  have hat : pc = .switch .SEND → s.pipe.DueAt i pc := by
    rintro rfl
    exact (h.guarded.held w _ hw trivial).2
  obtain ⟨hlive, hconn⟩ := Pipe.live_step (a := a) h.live h.connected hat
  exact ⟨Pipe.guarded_step h.guarded hw hjob, hlive, hconn⟩

omit [DecidableEq W] in
theorem Inv.recv (h : Inv i s) {chunk : Bytes} (hlen : chunk.length ≤ maxSockbuf)
    (hok : (s.pipe.slot.recv chunk).2 = true) :
    Inv i { s with pipe := { s.pipe with slot := (s.pipe.slot.recv chunk).1 } } where
  guarded := by
    refine h.guarded.outside rfl (fun h0 => ?_) fun pc _ hat => Pipe.dueAt_recv hlen hok hat
    exact ⟨h0.1.store_wf hlen, Pipe.due_recv h0.1 hlen hok h0.2⟩
  live := h.live.congr rfl rfl rfl rfl rfl
  connected := h.connected

omit [DecidableEq W] in
theorem Inv.complete (h : Inv i s) {t : SendStream} {k n internal : Nat} {isRun : Bool}
    (hcalls : dispatch isRun true (sendEntry i n internal) = some [.doTCPSend n] ∨
      dispatch isRun true (sendEntry i n internal) = some [])
    (ht : s.pipe.stream.step i (.complete k n internal isRun) = some t) :
    Inv i { s with pipe := s.pipe.withStream t } := by
  obtain ⟨hregular, hrecv, hphase, hlink, hacc⟩ := Pipe.complete_keeps hcalls ht
  have hconn : t.conn.isConnected = true := hlink.trans h.connected
  have hstreaming : Streaming t :=
    SendStream.streaming_step h.live.streaming hregular ht
  refine ⟨h.guarded.outside rfl (fun h0 => ?_) fun pc _ hat => ?_, hstreaming.live hconn, hconn⟩
  · refine ⟨Pipe.RecvWf.congr h0.1 hrecv, ?_⟩
    show (s.pipe.withStream t).Due i t.conn.jobProcess
    rw [hphase]
    exact h0.2.congr rfl hrecv hacc rfl
  · exact hat.congr rfl hrecv hphase hacc rfl

/-- A step of a session keeps what is due, and the stream. -/
theorem step_inv (h : Inv i s) (hl : PipeStep i s l) (hs : step i s l = some s') : Inv i s' := by
  cases l with
  | call w =>
    simp only [step] at hs
    split at hs
    · next hw =>
      obtain rfl := Option.some.inj hs
      exact ⟨h.guarded.idle (fun x hx => by rw [hw] at hx; cases hx)
        fun x hx => by cases hx; exact id, h.live, h.connected⟩
    · next c hw =>
      obtain rfl := Option.some.inj hs
      exact ⟨h.guarded.idle (fun x hx => by rw [hw] at hx; cases hx; exact id)
        fun x hx => by cases hx; exact id, h.live, h.connected⟩
    · cases hs
  | move w a =>
    simp only [step] at hs
    split at hs
    · cases hs
    · next pc hw =>
      obtain rfl := Option.some.inj hs
      exact h.move hw (hl pc hw)
  | recv chunk =>
    simp only [step] at hs
    split at hs
    · next hlen =>
      obtain rfl := Option.some.inj hs
      exact h.recv hlen.2 hl
    · cases hs
  | complete k n internal isRun =>
    obtain ⟨t, ht, rfl⟩ := Option.map_eq_some_iff.mp hs
    exact h.complete hl ht

/-! ## Sessions -/

/-- Nobody handles a request, there is no whole frame left, and nothing is being sent. -/
structure AtRest (s : Pipeline W) : Prop where
  free : s.pipe.slot.flag = true
  phase : s.pipe.slot.conn.jobProcess = .PARSING
  next : reqFraming.next s.pipe.slot.conn.recvBuffer.bytes = none
  outstanding : s.pipe.outstanding = []
  sendLen : s.pipe.slot.conn.sendLen = 0

omit [DecidableEq W] in
theorem Inv.streamed (h : Inv i s) :
    ∃ fs, fs <+: reqFraming.frames s.pipe.slot.hist.received ∧ Replies i fs s.pipe.accepted ∧
      (AtRest s → fs = reqFraming.frames s.pipe.slot.hist.received) := by
  cases hf : s.pipe.slot.flag with
  | true =>
    obtain ⟨fs, hfs, hreplies, hall⟩ := (h.guarded.free hf).2.streamed
    exact ⟨fs, hfs, hreplies, fun hrest => hall hrest.phase hrest.next⟩
  | false =>
    have hbusy : ¬ AtRest s := by
      intro hrest
      rw [hrest.free] at hf
      cases hf
    have hstreamed : ∃ fs, fs <+: reqFraming.frames s.pipe.slot.hist.received ∧
        Replies i fs s.pipe.accepted := by
      obtain ⟨w, pc, hw, hc⟩ := h.guarded.someone hf
      obtain ⟨-, -, hat⟩ := h.guarded.held w pc hw hc
      have hdue : ∀ {e}, s.pipe.Due i e → ∃ fs,
          fs <+: reqFraming.frames s.pipe.slot.hist.received ∧ Replies i fs s.pipe.accepted := by
        intro e hdue
        obtain ⟨fs, hfs, hreplies, -⟩ := hdue.streamed
        exact ⟨fs, hfs, hreplies⟩
      cases pc with
      | tryLock => exact absurd hc id
      | ret c => exact absurd hc id
      | createJob len o => exact hdue hat.1
      | popReqMsg len =>
        obtain ⟨fs, hfs, hreplies, -⟩ :=
          Pipe.Due.streamed (p := { s.pipe with slot := s.pipe.slot.popReqMsg len }) hat.2
        exact ⟨fs, hfs, hreplies⟩
      | _ => exact hdue hat
    obtain ⟨fs, hfs, hreplies⟩ := hstreamed
    exact ⟨fs, hfs, hreplies, fun hrest => absurd hrest hbusy⟩

omit [DecidableEq W] in
/-- At rest all that was accepted has been sent. -/
theorem Inv.sent (h : Inv i s) (hrest : AtRest s) : s.pipe.completed = s.pipe.accepted := by
  obtain ⟨q, -, -, hidle | hflight | hstalled⟩ := h.live
  · exact hidle.bytes.symm
  · obtain ⟨bs, hbs, -⟩ := hflight.outstanding
    cases hrest.outstanding.symm.trans hbs
  · exact absurd hrest.sendLen hstalled.sendLen

/-- However the calls of the workers, the receives and the completions are interleaved: the bytes
that have been sent are a prefix of the replies to the first frames of the session, in
order and each once, and at most one post is outstanding. At rest they are the replies to all
frames that are complete. -/
theorem replies_in_order {ls : List (PipeAct W)}
    (hsession : Meets (step i) (PipeStep i) init ls) (hr : run (step i) init ls = some s) :
    ∃ fs bs, fs <+: reqFraming.frames s.pipe.slot.hist.received ∧ Replies i fs bs ∧
      s.pipe.completed <+: bs ∧ s.pipe.outstanding.length ≤ 1 ∧
      (AtRest s → fs = reqFraming.frames s.pipe.slot.hist.received ∧ s.pipe.completed = bs) := by
  have h : Inv i s := run_invariant (fun _ _ _ h hl hs => step_inv h hl hs) inv_init hsession hr
  obtain ⟨fs, hfs, hreplies, hall⟩ := h.streamed
  obtain ⟨hone, hprefix⟩ := h.live.inOrder
  exact ⟨fs, s.pipe.accepted, hfs, hreplies, hprefix, hone,
    fun hrest => ⟨hall hrest, h.sent hrest⟩⟩

/-- A request for a token is received, handled in one call and answered, and the answer sent. -/
def tokenSession : List (PipeAct Unit) :=
  .recv tokenFrame :: .call () ::
    List.replicate 10 (.move () { alloc := some (.alloc 0 20), token := 5 }) ++
      [.complete 0 20 0 true]

theorem replies_in_order_token : ∃ (s : Pipeline Unit) (fs : List Bytes),
    run (step 0) init tokenSession = some s ∧ Replies 0 fs s.pipe.completed ∧
      fs = reqFraming.frames s.pipe.slot.hist.received := by
  have hend : (run (step 0) init tokenSession).map (fun s : Pipeline Unit =>
      decide (s.pipe.slot.flag = true ∧ s.pipe.slot.conn.jobProcess = .PARSING ∧
        reqFraming.next s.pipe.slot.conn.recvBuffer.bytes = none ∧ s.pipe.outstanding = [] ∧
        s.pipe.slot.conn.sendLen = 0)) = some true := by
    decide +kernel
  obtain ⟨s, hs, hrest⟩ := Option.map_eq_some_iff.mp hend
  obtain ⟨hflag, hphase, hnext, hout, hlen⟩ := of_decide_eq_true hrest
  have hsession : Meets (step 0) (PipeStep 0) (init : Pipeline Unit) tokenSession := by
    decide +kernel
  obtain ⟨fs, bs, -, hreplies, -, -, hall⟩ := replies_in_order hsession hs
  obtain ⟨hfs, hbs⟩ := hall ⟨hflag, hphase, hnext, hout, hlen⟩
  exact ⟨s, fs, hs, hbs ▸ hreplies, hfs⟩

end Pipeline

end RacingGameServer
