import SocketServerLib.Lib.LabelledRun
import SocketServerLib.EpollServer.ClientContext
import Mathlib.Data.List.Perm.Basic

/-
  The jobs of one connection: `JobThread` executes them one after the other, each sends its
  response with `SendMsg`, and one that could not is queued again; `ResumeSend` comes in
  between as often as epoll calls it.

  `execute` is `EchoJob::Execute` up to the switch over its result: `ClientContext::SendMsg`
  under the lock, then the change of the epoll interest, which concerns the buffer no more.
  `wire` is what the kernel has taken by the answers of `send()`, `calls` are the calls of
  `ClientContext::SendMsg` with the context they found, `received` and `succeeded` the jobs queued
  by `OnReceive` and the jobs that are through; all four are ghosts.

  What is proved:
    1. `step_lawful`, `step_unlawful` — one step keeps the law, or breaks it visibly.
    2. `responses_once_iff` — every call and every state obeys the law if and only if each
       packet fits exactly when `send()` does not fail, and `EPOLL_CTL_MOD` succeeds where
       `send()` leaves bytes behind.
    3. `response_twice` — a response that is sent twice.

  What is assumed: `Execute` and `ResumeSend` are one step each, as is a push to `m_JobQueue`,
  though that of `JobThread` takes no lock; `send()` takes no more than it is offered.
-/
namespace EpollServer
open RacingGameServer LabelledRun ClientContext

inductive InfoCode where
  | REQ_SUCCESS | REQ_FAILED | NOT_FINISHED | NULLPTR_ON_FUNCPTR | OTHER_ERR
  deriving DecidableEq, Repr

/-- `static_cast<int32_t>` of the code. -/
def InfoCode.toNat : InfoCode → Nat
  | REQ_SUCCESS => 0
  | REQ_FAILED => 1
  | NOT_FINISHED => 2
  | NULLPTR_ON_FUNCPTR => 3
  | OTHER_ERR => 4

def sizeofInfoHeader : Nat := 12

/-- `sizeof(EchoParameter)`. -/
def sizeofEchoParameter : Nat := 4 + 80

/-- What `PacketData::Init` leaves in a new packet: nothing, if the message is too long. -/
def initPacket (infoCode_ : InfoCode) (reqNo_ : Nat) (payload : Bytes) : Bytes :=
  if (payload.length + sizeofInfoHeader) % 2 ^ 32 > packetSize then []
  else
    leEncode 4 ((payload.length + sizeofInfoHeader) % 2 ^ 32) ++ leEncode 4 infoCode_.toNat ++
      leEncode 4 reqNo_ ++ payload

/-- A job that `Parse` has accepted. -/
structure EchoJob where
  reqNo : Nat
  param : Bytes
  param_length : param.length = sizeofEchoParameter
  deriving DecidableEq

namespace EchoJob

/-- The packet that `Execute` sends. -/
def packet (job : EchoJob) : Bytes := initPacket .REQ_SUCCESS job.reqNo job.param

theorem packet_length (job : EchoJob) : job.packet.length = 96 := by
  have hlen : job.param.length = 84 := job.param_length
  have hfit : ¬ (job.param.length + sizeofInfoHeader) % 2 ^ 32 > packetSize := by
    rw [hlen]
    decide
  rw [packet, initPacket, if_neg hfit]
  simp only [List.length_append, leEncode_length, hlen]

theorem packet_le (job : EchoJob) : job.packet.length ≤ packetSize := by
  rw [packet_length]
  decide

theorem packet_ne (job : EchoJob) : job.packet ≠ [] := by
  intro h
  have := job.packet_length
  rw [h] at this
  cases this

end EchoJob

/-- The switch of `EpollServer::SendMsg` over the status; `bMod_` is whether `EPOLL_CTL_MOD`
succeeds. -/
def sendMsg (eRet : SendStatus) (bMod_ : Bool) : Bool :=
  match eRet with
  | .PARTIAL_SUCCESS => bMod_
  | .WHOLE_SUCCESS => true
  | .FAILED => false

/-- `Job::SendMsgFunc`, as `GameServer::Start` sets it. -/
def sendMsgFunc (bRet : Bool) : InfoCode := if bRet = true then .REQ_SUCCESS else .NOT_FINISHED

/-- The switch of `JobThread` deletes the job or queues it again. -/
def requeues : InfoCode → Bool
  | .NOT_FINISHED => true
  | _ => false

structure Responses where
  context : ClientContext
  jobQueue : List EchoJob
  running : Option EchoJob
  received : List EchoJob
  succeeded : List EchoJob
  wire : Bytes
  calls : List (ClientContext × Bytes × Option Nat)

/-- `nRet` is the answer of `send()`. -/
inductive ResponseAct where
  | receive (job : EchoJob)
  | take
  | execute (nRet : Option Nat) (bMod_ : Bool)
  | resumeSend (nRet : Option Nat)

namespace Responses

def init (fd_ : Nat) : Responses :=
  { context := .init fd_, jobQueue := [], running := none, received := [], succeeded := []
    wire := [], calls := [] }

/-- What `send()` takes while the job is executed; it is not called on a closed socket. -/
def takenOf (s : Responses) (job : EchoJob) (nRet : Option Nat) : Bytes :=
  if s.context.socket < 0 then [] else takenBytes (s.context.stored job.packet) nRet

/-- A job is executed, and what becomes of it. -/
def execute (s : Responses) (job : EchoJob) (nRet : Option Nat) (bMod_ : Bool) : Responses :=
  let bRet := sendMsg (s.context.sendMsg (some job.packet) nRet).2.1 bMod_
  let eRet := sendMsgFunc bRet
  { s with
    context := (s.context.sendMsg (some job.packet) nRet).1
    jobQueue := if requeues eRet = true then s.jobQueue ++ [job] else s.jobQueue
    running := none
    succeeded := if requeues eRet = true then s.succeeded else s.succeeded ++ [job]
    wire := s.wire ++ s.takenOf job nRet
    calls := s.calls ++ [(s.context, job.packet, nRet)] }

def step (s : Responses) : ResponseAct → Option Responses
  | .receive job =>
    some { s with jobQueue := s.jobQueue ++ [job], received := s.received ++ [job] }
  | .take =>
    match s.running, s.jobQueue with
    | none, job :: jobQueue => some { s with jobQueue := jobQueue, running := some job }
    | _, _ => none
  | .execute nRet bMod_ =>
    match s.running with
    | some job =>
      if Offered (s.context.stored job.packet) nRet then some (s.execute job nRet bMod_) else none
    | none => none
  | .resumeSend nRet =>
    if Offered s.context.sendBuffer nRet then
      some
        { s with
          context := (s.context.resumeSend nRet).1
          wire := s.wire ++ takenBytes s.context.sendBuffer nRet }
    else none

/-- Every call tells whether it stored its packet; the wire and the buffer hold the packets
of the jobs that are through; each job received is through, running or queued, once. -/
structure Lawful (s : Responses) : Prop where
  calls : ∀ c ∈ s.calls, CallLaw c.1 c.2.1 c.2.2
  stream : s.wire ++ s.context.sendBuffer.bytes = (s.succeeded.map EchoJob.packet).flatten
  once : s.received.Perm (s.succeeded ++ s.running.toList ++ s.jobQueue)

/-- A packet that fits is taken by `send()` at least in part, and where bytes are left behind
`EPOLL_CTL_MOD` succeeds; for a packet that does not fit `send()` fails. -/
def Sends (c : ClientContext) (data : Bytes) (nRet : Option Nat) (bMod_ : Bool) : Prop :=
  match nRet with
  | none => ¬ c.Fits data
  | some n => c.Fits data ∧ (n < c.sendBuffer.size + data.length → bMod_ = true)

def Sent (s : Responses) : ResponseAct → Prop
  | .execute nRet bMod_ =>
    match s.running with
    | some job => Sends s.context job.packet nRet bMod_
    | none => True
  | _ => True

instance (c : ClientContext) (data : Bytes) (bMod_ : Bool) :
    ∀ nRet, Decidable (Sends c data nRet bMod_)
  | none => inferInstanceAs (Decidable (¬ c.Fits data))
  | some n =>
    inferInstanceAs
      (Decidable (c.Fits data ∧ (n < c.sendBuffer.size + data.length → bMod_ = true)))

instance (s : Responses) : DecidablePred s.Sent := fun a => by
  unfold Sent
  split
  · split <;> infer_instance
  · infer_instance

variable {s s' : Responses} {job : EchoJob} {nRet : Option Nat} {bMod_ : Bool}

/-! ## One execution -/

/-- The job is through if `SendMsg` did not fail and `EPOLL_CTL_MOD`, where it is called,
succeeds. -/
theorem requeues_sendMsg (eRet : SendStatus) (bMod_ : Bool) :
    requeues (sendMsgFunc (sendMsg eRet bMod_)) = true ↔
      eRet = .FAILED ∨ eRet = .PARTIAL_SUCCESS ∧ bMod_ = false := by
  cases eRet <;> cases bMod_ <;> decide

/-- Where `Sends` holds, the call is lawful and the job is through if its packet fits. -/
theorem sends_iff (h : s.context.Live) (hn : Offered (s.context.stored job.packet) nRet) :
    Sends s.context job.packet nRet bMod_ ↔
      CallLaw s.context job.packet nRet ∧
        (requeues (sendMsgFunc (sendMsg (s.context.sendMsg (some job.packet) nRet).2.1 bMod_)) =
          true ↔ ¬ s.context.Fits job.packet) := by
  rw [callLaw_iff h job.packet_le job.packet_ne hn, requeues_sendMsg, sendMsg_failed h]
  cases nRet with
  | none =>
    simp only [Sends]
    by_cases hf : s.context.Fits job.packet
    · refine iff_of_false (fun hno => hno hf) fun hiff => hiff.1.mp hf rfl
    · exact iff_of_true hf ⟨iff_of_false hf fun hno => hno rfl, iff_of_true (.inl trivial) hf⟩
  | some n =>
    simp only [Sends]
    by_cases hf : s.context.Fits job.packet
    · obtain ⟨hbytes, hwf⟩ := stored_fits h hf
      have hsize : (s.context.stored job.packet).size =
          s.context.sendBuffer.size + job.packet.length := by
        rw [← hwf.bytes_length, hbytes, List.length_append, h.wf.bytes_length]
      rw [sendMsg_eq h, sendBuffered_partial hwf hn, hsize]
      cases bMod_ with
      | true =>
        refine iff_of_true ⟨hf, fun _ => rfl⟩
          ⟨iff_of_true hf (Option.some_ne_none n), iff_of_false ?_ ?_⟩
        · intro hor
          rcases hor with hno | ⟨-, hno⟩ <;> cases hno
        · exact fun hno => hno hf
      | false =>
        constructor
        · intro hs
          refine ⟨iff_of_true hf (Option.some_ne_none n), iff_of_false ?_ fun hno => hno hf⟩
          intro hor
          rcases hor with hno | ⟨hlt, -⟩
          · cases hno
          · cases hs.2 hlt
        · intro hs
          refine ⟨hf, fun hlt => absurd hf (hs.2.mp (.inr ⟨hlt, rfl⟩))⟩
    · refine iff_of_false (fun hs => hf hs.1) fun hs => ?_
      exact hf (hs.1.mpr (Option.some_ne_none n))

theorem execute_stream (h : s.context.Live) (hlaw : Lawful s)
    (hn : Offered (s.context.stored job.packet) nRet) (bMod_ : Bool) :
    (s.execute job nRet bMod_).wire ++ (s.execute job nRet bMod_).context.sendBuffer.bytes =
      (s.succeeded.map EchoJob.packet).flatten ++
        if s.context.Fits job.packet then job.packet else [] := by
  show s.wire ++ s.takenOf job nRet ++
    (s.context.sendMsg (some job.packet) nRet).1.sendBuffer.bytes = _
  rw [takenOf, ← sendMsg_taken, List.append_assoc]
  split
  · next hf => rw [sendMsg_fits h hf hn, ← List.append_assoc, hlaw.stream]
  · next hf => rw [sendMsg_full h job.packet_le hf hn, List.append_nil, hlaw.stream]

/-- The packets of the jobs that are through then. -/
theorem execute_succeeded (s : Responses) (job : EchoJob) (nRet : Option Nat) (bMod_ : Bool) :
    ((s.execute job nRet bMod_).succeeded.map EchoJob.packet).flatten =
      (s.succeeded.map EchoJob.packet).flatten ++
        if requeues (sendMsgFunc (sendMsg (s.context.sendMsg (some job.packet) nRet).2.1 bMod_)) =
          true then [] else job.packet := by
  simp only [execute]
  split
  · rw [List.append_nil]
  · rw [List.map_append, List.flatten_append]
    simp

theorem execute_once (hlaw : Lawful s) (hj : s.running = some job) :
    (s.execute job nRet bMod_).received.Perm ((s.execute job nRet bMod_).succeeded ++
      (s.execute job nRet bMod_).running.toList ++ (s.execute job nRet bMod_).jobQueue) := by
  have honce := hlaw.once
  rw [hj] at honce
  simp only [execute, Option.toList_none, List.append_nil]
  split
  · refine honce.trans ?_
    rw [List.append_assoc]
    exact List.Perm.append_left _ List.perm_append_comm
  · exact honce

/-- An execution is lawful if and only if it meets the condition. -/
theorem execute_lawful_iff (h : s.context.Live) (hlaw : Lawful s) (hj : s.running = some job)
    (hn : Offered (s.context.stored job.packet) nRet) :
    Lawful (s.execute job nRet bMod_) ↔ Sends s.context job.packet nRet bMod_ := by
  rw [sends_iff h hn]
  have hstream := execute_stream h hlaw hn bMod_
  have hsucceeded := execute_succeeded s job nRet bMod_
  constructor
  · intro hlaw'
    refine ⟨hlaw'.calls _ (List.mem_append_right _ (List.mem_singleton.mpr rfl)), ?_⟩
    have heq := hlaw'.stream
    rw [hstream, hsucceeded, List.append_cancel_left_eq] at heq
    split at heq
    · next hf =>
      refine iff_of_false (fun hreq => ?_) fun hno => hno hf
      rw [if_pos hreq] at heq
      exact job.packet_ne heq
    · next hf =>
      refine iff_of_true ?_ hf
      by_contra hreq
      rw [if_neg hreq] at heq
      exact job.packet_ne heq.symm
  · intro ⟨hcall, hreq⟩
    refine ⟨?_, ?_, execute_once hlaw hj⟩
    · intro c hc
      rcases List.mem_append.mp hc with hc | hc
      · exact hlaw.calls c hc
      · obtain rfl := List.mem_singleton.mp hc
        exact hcall
    · rw [hstream, hsucceeded]
      by_cases hf : s.context.Fits job.packet
      · rw [if_pos hf, if_neg fun hr => hreq.mp hr hf]
      · rw [if_neg hf, if_pos (hreq.mpr hf)]

/-! ## Every run -/

theorem lawful_init (fd_ : Nat) : Lawful (init fd_) where
  calls := nofun
  stream := rfl
  once := .nil

/-- The other steps keep the law. -/
theorem step_lawful {a : ResponseAct} (h : s.context.Live ∧ Lawful s) (ha : s.Sent a)
    (hs : step s a = some s') : s'.context.Live ∧ Lawful s' := by
  obtain ⟨hlive, hlaw⟩ := h
  cases a with
  | receive job =>
    obtain rfl := Option.some.inj hs
    refine ⟨hlive, hlaw.calls, hlaw.stream, ?_⟩
    show (s.received ++ [job]).Perm (s.succeeded ++ s.running.toList ++ (s.jobQueue ++ [job]))
    rw [← List.append_assoc]
    exact hlaw.once.append_right [job]
  | take =>
    simp only [step] at hs
    split at hs
    · next job jobQueue hrun hqueue =>
      obtain rfl := Option.some.inj hs
      refine ⟨hlive, hlaw.calls, hlaw.stream, ?_⟩
      have honce := hlaw.once
      rw [hrun, hqueue] at honce
      simpa using honce
    · cases hs
  | execute nRet bMod_ =>
    simp only [step] at hs
    split at hs
    · next job hj =>
      simp only [Sent, hj] at ha
      split at hs
      · next hn =>
        obtain rfl := Option.some.inj hs
        exact ⟨hlive.sendMsg job.packet_le nRet, (execute_lawful_iff hlive hlaw hj hn).mpr ha⟩
      · cases hs
    · cases hs
  | resumeSend nRet =>
    simp only [step] at hs
    split at hs
    · next hn =>
      obtain rfl := Option.some.inj hs
      refine ⟨hlive.resumeSend nRet, hlaw.calls, ?_, hlaw.once⟩
      show s.wire ++ takenBytes s.context.sendBuffer nRet ++
        (s.context.resumeSend nRet).1.sendBuffer.bytes = _
      rw [← resumeSend_taken, List.append_assoc, resumeSend_bytes hlive hn]
      exact hlaw.stream
    · cases hs

/-- Any other execution breaks it. -/
theorem step_unlawful {a : ResponseAct} (h : s.context.Live ∧ Lawful s) (ha : ¬ s.Sent a)
    (hs : step s a = some s') : ¬ Lawful s' := by
  obtain ⟨hlive, hlaw⟩ := h
  cases a with
  | execute nRet bMod_ =>
    simp only [step] at hs
    split at hs
    · next job hj =>
      simp only [Sent, hj] at ha
      split at hs
      · next hn =>
        obtain rfl := Option.some.inj hs
        exact fun hlaw' => ha ((execute_lawful_iff hlive hlaw hj hn).mp hlaw')
      · cases hs
    · cases hs
  | _ => exact absurd trivial ha

/-- Every response is put on the wire exactly once, and every status is right, if and only if
every execution meets the condition. -/
theorem responses_once_iff {fd_ : Nat} {acts : List ResponseAct}
    (hr : run step (init fd_) acts = some s) :
    Always step Lawful (init fd_) acts ↔ Meets step Sent (init fd_) acts :=
  always_iff_meets (I := fun s => s.context.Live ∧ Lawful s) (fun _ h => h.2)
    (fun _ _ _ h ha hs => step_lawful h ha hs) (fun _ _ _ h ha hs => step_unlawful h ha hs)
    ⟨live_init fd_, lawful_init fd_⟩ hr

/-- An echo of `b` only. -/
def echoOf (reqNo : Nat) (b : UInt8) : EchoJob :=
  { reqNo := reqNo, param := List.replicate sizeofEchoParameter b
    param_length := List.length_replicate }

/-- Two responses, the first of them in three parts. -/
def twoResponses : List ResponseAct :=
  [.receive (echoOf 1 65), .take, .execute (some 50) true, .receive (echoOf 2 66),
    .resumeSend (some 20), .take, .resumeSend none, .execute (some 122) true]

theorem responses_once_iff_two : Always step Lawful (init 4) twoResponses := by
  have hrun : (run step (init 4) twoResponses).isSome = true := by decide +kernel
  obtain ⟨s, hs⟩ := Option.isSome_iff_exists.mp hrun
  exact (responses_once_iff hs).mpr (by decide +kernel)

/-- The first `send()` fails with the packet stored: the job is queued again, and its packet is
stored and sent a second time. -/
theorem response_twice :
    ¬ ∀ (fd_ : Nat) (acts : List ResponseAct) (s : Responses),
      run step (init fd_) acts = some s → Lawful s := by
  intro h
  have hrun : ((run step (init 4) [.receive (echoOf 1 65), .take, .execute none true, .take,
      .execute (some 192) true]).map fun s => (s.wire.length, s.succeeded.length)) =
      some (192, 1) := by decide +kernel
  obtain ⟨s, hs, hlen⟩ := Option.map_eq_some_iff.mp hrun
  obtain ⟨hwire, hsucceeded⟩ := Prod.mk.inj hlen
  have hstream := congrArg List.length (h 4 _ s hs).stream
  obtain ⟨job, hjob⟩ := List.length_eq_one_iff.mp hsucceeded
  simp only [hjob, List.length_append, List.map_cons, List.map_nil, List.flatten_cons,
    List.flatten_nil, List.append_nil, EchoJob.packet_length] at hstream
  omega

end Responses

end EpollServer
