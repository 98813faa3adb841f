import SocketServerLib.SelectServer.OpenSets
import SocketServerLib.SelectServer.JobFactory
import SocketServerLib.Lib.RetryQueue

/-
  The select server with its job thread: the requests of all clients go through one queue, and a
  job whose packet cannot be stored goes to its end.

  The steps on the contexts are those of `Server`. `onReceive` is one `m_JobQueue.push` of
  `OnReceive`, of a request that has been framed from the context of its socket. `execute` is
  `EchoJob::Execute` with `SelectServer::SendMsg` and the switch of `JobThread` on its result; a
  job has the socket of its client and nothing else of the connection.

  Every context that `Clients` takes has a number of its own. A job has its place among those
  received and, as `origin`, the number of the context of its request. `wire m` is what the kernel
  has taken from context `m`, and `appended` lists the packets that have been stored, each with the
  number of the context and its job; all of these are ghosts.

  What is proved:
    1. `step_sent` — what the kernel has taken from a context and what its buffer has are the
       packets stored there.
    2. `answers_iff` — in every state each packet stored is in the context of its request, and the
       packets of a client are stored in the order of its requests, if and only if no job is
       executed for a context that took over its socket, and none is put back while another one of
       its client is in the queue.
    3. `replies_prefix` — so each client gets the replies to its requests in order, each once, and
       all of them when none is pending.
    4. `orphan_stays` — a job whose client has gone is never through while no other client gets the
       socket.

  What is assumed:
    1. What the job thread does in `Execute` is one step, so that a context that `ReadThread`
       deletes between `GetContext` and `ClientContext::SendMsg` is left out.
    2. `ResumeSend` of `WriteThread` is one step, though it shares the send buffer with `SendMsg`
       and no lock keeps the two apart.
    3. `m_JobQueue` is a concurrent queue, so that a push and a pop are one step each.
-/
namespace SelectServer
open RacingGameServer (Bytes leEncode leEncode_length)
open LabelledRun RetryQueue

inductive InfoCode where
  | REQ_SUCCESS | REQ_FAILED | NOT_FINISHED | NULLPTR_ON_FUNCPTR | OTHER_ERR
  deriving DecidableEq, Repr

/-- `static_cast<int32_t>` of the code. -/
def InfoCode.toNat : InfoCode → Nat
  | REQ_SUCCESS => 0
  | REQ_FAILED => 1
  | NOT_FINISHED => 2
  | NULLPTR_ON_FUNCPTR => 3
  | OTHER_ERR => 4

def sizeofInfoHeader : Nat := 12

/-- What `PacketData::Init` leaves in a new packet. -/
def initPacket (infoCode_ : InfoCode) (reqNo_ : Nat) (objData_ : Bytes) : Bytes :=
  if (objData_.length + sizeofInfoHeader) % 2 ^ 32 > packetSize then []
  else
    leEncode 4 ((objData_.length + sizeofInfoHeader) % 2 ^ 32) ++ leEncode 4 infoCode_.toNat ++
      leEncode 4 reqNo_ ++ objData_

theorem initPacket_length (job : EchoJob) :
    (initPacket .REQ_SUCCESS job.reqNo job.param).length = 96 := by
  have hlen : job.param.length = 84 := job.param_length
  have hfit : ¬ (job.param.length + sizeofInfoHeader) % 2 ^ 32 > packetSize := by
    rw [hlen]
    decide
  rw [initPacket, if_neg hfit]
  simp only [List.length_append, leEncode_length, hlen]

/-- The packet that `Execute` sends. -/
def EchoJob.packet (job : EchoJob) : PacketData where
  bytes := initPacket .REQ_SUCCESS job.reqNo job.param
  size_pos := by
    rw [initPacket_length]
    decide
  size_le := by
    rw [initPacket_length]
    decide

/-- `GameServer::SendResultMsg`. -/
def sendResultMsg (bRet : Bool) : InfoCode := if bRet = true then .REQ_SUCCESS else .NOT_FINISHED

/-- The switch of `JobThread` deletes the job or queues it again. -/
def requeues : InfoCode → Bool
  | .NOT_FINISHED => true
  | _ => false

/-- What `SelectServer::SendMsg` returns for the status of the context. -/
def sendRet : SendStatus → Bool
  | .WHOLE_SUCCESS => true
  | .PARTIAL_SUCCESS => true
  | .FAILED => false

structure Request where
  job : EchoJob
  place : Nat
  origin : Nat

structure JobServer where
  srv : Server
  jobs : Queue Request
  contexts : Nat
  number : Nat → Nat
  wire : Nat → Bytes
  appended : List (Nat × Request)

inductive JobAct where
  | accept (clntSocket : Option Nat) (created : Option (Bool × Bool))
  | recv (clientSocket_ : Nat) (strLen : Option Nat)
  | onReceive (job : EchoJob)
  | take
  | execute (nRet : Option Nat)
  | resumeSend (clientSocket_ : Nat) (nRet : Option Nat)

namespace JobServer

def init (listenSocket : Nat) : JobServer :=
  { srv := .init listenSocket, jobs := .init, contexts := 0, number := fun _ => 0
    wire := fun _ => [], appended := [] }

/-- The socket for which `emplace` makes an entry of `Clients`. -/
def emplaced (srv : Server) (clntSocket : Option Nat) (created : Option (Bool × Bool)) :
    Option Nat :=
  match clntSocket, created with
  | some fd, some _ => if (srv.Clients fd).isNone = true then some fd else none
  | _, _ => none

/-- The entry has the next number. -/
def numbered (s : JobServer) (fd : Option Nat) : JobServer :=
  match fd with
  | none => s
  | some fd =>
    { s with contexts := s.contexts + 1, number := Function.update s.number fd s.contexts }

/-- The kernel takes bytes of the context of the socket. -/
def took (s : JobServer) (fd : Nat) (taken : Bytes) : JobServer :=
  { s with wire := Function.update s.wire (s.number fd) (s.wire (s.number fd) ++ taken) }

/-- What `ClientContext::SendMsg` does with the packet of the job, if its socket has a context. -/
def sent (s : JobServer) (q : Request) (nRet : Option Nat) :
    Option (ClientContext × SendStatus × Bytes) :=
  (s.srv.Clients q.job.socket).map fun pCC => pCC.sendMsg (some q.job.packet) nRet

/-- `GameServer::SendResultMsg` for the job. -/
def result (s : JobServer) (q : Request) (nRet : Option Nat) : InfoCode :=
  sendResultMsg ((s.sent q nRet).elim false fun r => sendRet r.2.1)

/-- `EchoJob::Execute`: the bytes that are taken, and the packet if it is stored. -/
def executed (s : JobServer) (q : Request) (nRet : Option Nat) : JobServer :=
  let s' := s.took q.job.socket
    ((s.srv.Clients q.job.socket).elim [] fun pCC => pCC.takenOf q.job.packet nRet)
  if requeues (s.result q nRet) = true then s'
  else { s' with appended := s.appended ++ [(s.number q.job.socket, q)] }

def step (s : JobServer) : JobAct → Option JobServer
  | .accept clntSocket created =>
    (Server.step s.srv (.accept clntSocket created)).map fun srv =>
      { s.numbered (emplaced s.srv clntSocket created) with srv := srv }
  | .recv fd strLen => (Server.step s.srv (.recv fd strLen)).map fun srv => { s with srv := srv }
  | .onReceive job =>
    if job.socket ∈ s.srv.reads ∧ (s.srv.Clients job.socket).isSome = true then
      (Queue.step s.jobs (.arrive { job := job, place := s.jobs.received.length
                                    origin := s.number job.socket })).map fun jobs =>
        { s with jobs := jobs }
    else none
  | .take => (Queue.step s.jobs .take).map fun jobs => { s with jobs := jobs }
  | .execute nRet =>
    s.jobs.running.bind fun q =>
      (Server.step s.srv (.sendMsg q.job.socket q.job.packet nRet)).bind fun srv =>
        (Queue.step s.jobs
          (if requeues (s.result q nRet) = true then .putBack else .finish)).map fun jobs =>
            { s.executed q nRet with srv := srv, jobs := jobs }
  | .resumeSend fd nRet =>
    (Server.step s.srv (.resumeSend fd nRet)).map fun srv =>
      { s.took fd ((s.srv.Clients fd).elim [] fun pCC => takenBytes pCC.sendBuffer nRet) with
        srv := srv }

/-- The packets stored in context `m`, one after the other. -/
def storedIn (s : JobServer) (m : Nat) : Bytes :=
  (s.appended.filter fun e => e.1 = m).flatMap fun e => e.2.job.packet.bytes

/-- The replies to the requests of context `m`. -/
def replies (s : JobServer) (m : Nat) : Bytes :=
  (Queue.withKey Request.origin m s.jobs.received).flatMap fun q => q.job.packet.bytes

/-- Each packet is in the context of its request. -/
def Own (s : JobServer) : Prop := ∀ e ∈ s.appended, e.1 = e.2.origin

/-- And the packets of a client are stored in the order of its requests. -/
def Answers (s : JobServer) : Prop := s.Own ∧ s.jobs.InOrder Request.origin

/-- The socket of the job has a context with room for its packet. -/
def Stores (s : JobServer) (q : Request) : Prop :=
  ∃ pCC ∈ s.srv.Clients q.job.socket, pCC.Fits q.job.packet.bytes

instance (s : JobServer) (q : Request) : Decidable (s.Stores q) :=
  inferInstanceAs (Decidable (∃ pCC ∈ s.srv.Clients q.job.socket, pCC.Fits q.job.packet.bytes))

/-- A packet that can be stored is stored in the context of its request; where it cannot be, no
other job of its client is in the queue. -/
def KeepsAnswers (s : JobServer) : JobAct → Prop
  | .execute _ => ∀ q ∈ s.jobs.running, (s.Stores q → s.number q.job.socket = q.origin) ∧
      (¬ s.Stores q → ∀ y ∈ s.jobs.queue, y.origin ≠ q.origin)
  | _ => True

instance (s : JobServer) : DecidablePred s.KeepsAnswers
  | .accept _ _ => .isTrue trivial
  | .recv _ _ => .isTrue trivial
  | .onReceive _ => .isTrue trivial
  | .take => .isTrue trivial
  | .execute _ =>
    inferInstanceAs (Decidable (∀ q ∈ s.jobs.running,
      (s.Stores q → s.number q.job.socket = q.origin) ∧
        (¬ s.Stores q → ∀ y ∈ s.jobs.queue, y.origin ≠ q.origin)))
  | .resumeSend _ _ => .isTrue trivial

variable {s s' : JobServer} {a : JobAct} {q : Request} {fd m : Nat} {nRet : Option Nat}

/-! ## The steps -/

theorem step_accept {clntSocket : Option Nat} {created : Option (Bool × Bool)}
    (h : step s (.accept clntSocket created) = some s') :
    s.srv.Enabled (.accept clntSocket created) ∧
      s' = { s.numbered (emplaced s.srv clntSocket created) with
        srv := s.srv.doAccept clntSocket created } := by
  obtain ⟨srv, hsrv, rfl⟩ := Option.map_eq_some_iff.mp h
  obtain ⟨hen, rfl⟩ := Server.step_eq_some.mp hsrv
  exact ⟨hen, rfl⟩

theorem step_recv {strLen : Option Nat} (h : step s (.recv fd strLen) = some s') :
    s' = { s with srv := s.srv.doRecv fd strLen } := by
  obtain ⟨srv, hsrv, rfl⟩ := Option.map_eq_some_iff.mp h
  obtain ⟨-, rfl⟩ := Server.step_eq_some.mp hsrv
  rfl

theorem step_onReceive {job : EchoJob} (h : step s (.onReceive job) = some s') :
    ∃ jobs, (s.srv.Clients job.socket).isSome = true ∧
      Queue.step s.jobs (.arrive { job := job, place := s.jobs.received.length
                                   origin := s.number job.socket }) = some jobs ∧
      s' = { s with jobs := jobs } := by
  simp only [step] at h
  split at h
  · next hen =>
    obtain ⟨jobs, hjobs, rfl⟩ := Option.map_eq_some_iff.mp h
    exact ⟨jobs, hen.2, hjobs, rfl⟩
  · cases h

theorem step_take (h : step s .take = some s') :
    ∃ jobs, Queue.step s.jobs .take = some jobs ∧ s' = { s with jobs := jobs } := by
  obtain ⟨jobs, hjobs, rfl⟩ := Option.map_eq_some_iff.mp h
  exact ⟨jobs, hjobs, rfl⟩

theorem step_resumeSend (h : step s (.resumeSend fd nRet) = some s') :
    s.srv.Enabled (.resumeSend fd nRet) ∧
      s' = { s.took fd ((s.srv.Clients fd).elim [] fun pCC => (pCC.resumeSend nRet).2.2) with
        srv := s.srv.resumeSend fd nRet } := by
  obtain ⟨srv, hsrv, rfl⟩ := Option.map_eq_some_iff.mp h
  obtain ⟨hen, rfl⟩ := Server.step_eq_some.mp hsrv
  refine ⟨hen, ?_⟩
  simp only [ClientContext.resumeSend_taken]
  rfl

theorem took_nil (s : JobServer) (fd : Nat) : s.took fd [] = s := by
  unfold took
  rw [List.append_nil, Function.update_eq_self]

/-- A packet that is stored: the job is through. -/
theorem sent_stored {pCC : ClientContext} (hc : s.srv.Clients q.job.socket = some pCC)
    (hwf : pCC.Wf) (hf : pCC.Fits q.job.packet.bytes)
    (hn : ClientContext.Offered (pCC.stored q.job.packet.bytes).1 nRet) :
    s.result q nRet = .REQ_SUCCESS ∧
      s.executed q nRet =
        { s.took q.job.socket (pCC.sendMsg (some q.job.packet) nRet).2.2 with
          appended := s.appended ++ [(s.number q.job.socket, q)] } := by
  obtain ⟨-, hstatus⟩ := ClientContext.sendMsg_fits hwf hf hn
  have hret : sendRet (pCC.sendMsg (some q.job.packet) nRet).2.1 = true := by
    rw [hstatus]
    split <;> rfl
  have hresult : s.result q nRet = .REQ_SUCCESS := by
    simp only [result, sent, hc, Option.map_some, Option.elim_some, hret]
    rfl
  refine ⟨hresult, ?_⟩
  have hrequeues : requeues .REQ_SUCCESS = false := rfl
  simp only [executed, hresult, hrequeues, Bool.false_eq_true, if_false, hc, Option.elim_some,
    ClientContext.sendMsg_taken]

/-- A packet that is not stored changes nothing, and the job is put back. -/
theorem sent_refused (nRet : Option Nat) (hkeyed : s.srv.Keyed) (hno : ¬ s.Stores q) :
    s.result q nRet = .NOT_FINISHED ∧ s.executed q nRet = s ∧
      (s.srv.sendMsg q.job.socket q.job.packet nRet).Clients = s.srv.Clients := by
  have hrequeues : requeues .NOT_FINISHED = true := rfl
  cases hc : s.srv.Clients q.job.socket with
  | none =>
    have hresult : s.result q nRet = .NOT_FINISHED := by
      simp only [result, sent, hc, Option.map_none, Option.elim_none]
      rfl
    refine ⟨hresult, ?_, ?_⟩
    · simp only [executed, hresult, hrequeues, if_true, hc, Option.elim_none, took_nil]
    · simp only [Server.sendMsg, hc]
  | some pCC =>
    have hfull := ClientContext.sendMsg_full (hkeyed _ pCC hc).1
      (fun hf => hno ⟨pCC, hc, hf⟩) nRet
    have hresult : s.result q nRet = .NOT_FINISHED := by
      simp only [result, sent, hc, Option.map_some, Option.elim_some, hfull]
      rfl
    have htaken : pCC.takenOf q.job.packet nRet = [] := by
      rw [← ClientContext.sendMsg_taken, hfull]
    refine ⟨hresult, ?_, ?_⟩
    · simp only [executed, hresult, hrequeues, if_true, hc, Option.elim_some, htaken, took_nil]
    · simp only [Server.sendMsg, hc, hfull]
      exact Function.update_eq_self_iff.mpr hc.symm

/-- `Execute` and the switch on its result: the job is through if its packet can be stored, else
it is put back. -/
theorem step_execute (hkeyed : s.srv.Keyed) (h : step s (.execute nRet) = some s') :
    ∃ q jobs, s.jobs.running = some q ∧
      ((∃ pCC, s.srv.Clients q.job.socket = some pCC ∧ pCC.Fits q.job.packet.bytes ∧
          ClientContext.Offered (pCC.stored q.job.packet.bytes).1 nRet ∧
          Queue.step s.jobs .finish = some jobs ∧
          s' = { s.took q.job.socket (pCC.sendMsg (some q.job.packet) nRet).2.2 with
            appended := s.appended ++ [(s.number q.job.socket, q)]
            srv := s.srv.sendMsg q.job.socket q.job.packet nRet
            jobs := jobs }) ∨
        ¬ s.Stores q ∧ Queue.step s.jobs .putBack = some jobs ∧
          s' = { s with
            srv := s.srv.sendMsg q.job.socket q.job.packet nRet
            jobs := jobs }) := by
  obtain ⟨q, hq, h⟩ := Option.bind_eq_some_iff.mp h
  obtain ⟨srv, hsrv, h⟩ := Option.bind_eq_some_iff.mp h
  obtain ⟨hen, rfl⟩ := Server.step_eq_some.mp hsrv
  obtain ⟨jobs, hjobs, rfl⟩ := Option.map_eq_some_iff.mp h
  refine ⟨q, jobs, hq, ?_⟩
  by_cases hstores : s.Stores q
  · obtain ⟨pCC, hc, hf⟩ := hstores
    have hc : s.srv.Clients q.job.socket = some pCC := hc
    have hoffered := (hen pCC hc).1
    obtain ⟨hresult, hexecuted⟩ := sent_stored hc (hkeyed _ pCC hc).1 hf hoffered
    rw [hresult] at hjobs
    rw [hexecuted]
    exact .inl ⟨pCC, hc, hf, hoffered, hjobs, rfl⟩
  · obtain ⟨hresult, hexecuted, -⟩ := sent_refused nRet hkeyed hstores
    rw [hresult] at hjobs
    rw [hexecuted]
    exact .inr ⟨hstores, hjobs, rfl⟩

/-! ## What the kernel has taken -/

/-- The contexts have numbers of their own, and the kernel has taken from each what it was sent
but for what its buffer still has. -/
structure Sent (s : JobServer) : Prop where
  keyed : s.srv.Keyed
  number_lt : ∀ fd pCC, s.srv.Clients fd = some pCC → s.number fd < s.contexts
  apart : ∀ fd fd' pCC pCC', s.srv.Clients fd = some pCC → s.srv.Clients fd' = some pCC' →
    s.number fd = s.number fd' → fd = fd'
  unused : ∀ m, s.contexts ≤ m → s.wire m = []
  appended_lt : ∀ e ∈ s.appended, e.1 < s.contexts
  stream : ∀ fd pCC, s.srv.Clients fd = some pCC →
    s.wire (s.number fd) ++ pCC.sendBuffer.bytes = s.storedIn (s.number fd)
  prefix_of : ∀ m, s.wire m <+: s.storedIn m

theorem sent_init (listenSocket : Nat) : (init listenSocket).Sent where
  keyed := Server.keyed_init listenSocket
  number_lt fd pCC hc := by cases hc
  apart fd fd' pCC pCC' hc := by cases hc
  unused m hm := rfl
  appended_lt e he := by cases he
  stream fd pCC hc := by cases hc
  prefix_of m := List.prefix_rfl

theorem storedIn_append (s : JobServer) (new : List (Nat × Request)) (m : Nat) :
    ({ s with appended := s.appended ++ new } : JobServer).storedIn m =
      s.storedIn m ++ (new.filter fun e => e.1 = m).flatMap fun e => e.2.job.packet.bytes := by
  simp only [storedIn, List.filter_append, List.flatMap_append]

/-- Fewer contexts, or the same. -/
theorem Sent.shrink (h : s.Sent) {srv : Server} {jobs : Queue Request} (hkeyed : srv.Keyed)
    (hclients : ∀ fd pCC, srv.Clients fd = some pCC → s.srv.Clients fd = some pCC) :
    ({ s with srv := srv, jobs := jobs } : JobServer).Sent where
  keyed := hkeyed
  number_lt fd pCC hc := h.number_lt fd pCC (hclients fd pCC hc)
  apart fd fd' pCC pCC' hc hc' :=
    h.apart fd fd' pCC pCC' (hclients fd pCC hc) (hclients fd' pCC' hc')
  unused := h.unused
  appended_lt := h.appended_lt
  stream fd pCC hc := h.stream fd pCC (hclients fd pCC hc)
  prefix_of := h.prefix_of

/-- One context stores packets, and the kernel takes bytes from it. -/
theorem Sent.exchange (h : s.Sent) {pCC pCC' : ClientContext} {srv : Server}
    {taken : Bytes} (jobs : Queue Request) (new : List (Nat × Request))
    (hc : s.srv.Clients fd = some pCC) (hkeyed : srv.Keyed)
    (hclients : srv.Clients = Function.update s.srv.Clients fd (some pCC'))
    (hnew : ∀ e ∈ new, e.1 = s.number fd)
    (hbytes : taken ++ pCC'.sendBuffer.bytes =
      pCC.sendBuffer.bytes ++ new.flatMap fun e => e.2.job.packet.bytes) :
    ({ s.took fd taken with
        appended := s.appended ++ new, srv := srv, jobs := jobs } : JobServer).Sent := by
  -- what is open has been open, at the same number
  have hopen : ∀ fd' c, srv.Clients fd' = some c → ∃ c', s.srv.Clients fd' = some c' := by
    intro fd' c hc'
    rw [hclients] at hc'
    by_cases he : fd' = fd
    · exact ⟨pCC, he ▸ hc⟩
    · rw [Function.update_of_ne he] at hc'
      exact ⟨c, hc'⟩
  have hmine : ∀ m, (new.filter fun e => e.1 = m).flatMap (fun e => e.2.job.packet.bytes) =
      if m = s.number fd then new.flatMap fun e => e.2.job.packet.bytes else [] := by
    intro m
    split
    · next he =>
      rw [List.filter_eq_self.mpr fun e hmem => decide_eq_true ((hnew e hmem).trans he.symm)]
    · next hne =>
      rw [List.filter_eq_nil_iff.mpr fun e hmem heq =>
        hne ((of_decide_eq_true heq).symm.trans (hnew e hmem))]
      rfl
  have hstored : ∀ m, ({ s.took fd taken with
      appended := s.appended ++ new, srv := srv, jobs := jobs } : JobServer).storedIn m =
        s.storedIn m ++ if m = s.number fd then new.flatMap fun e => e.2.job.packet.bytes
          else [] := by
    intro m
    rw [← hmine]
    exact storedIn_append s new m
  have hwire : ∀ m, (s.took fd taken).wire m =
      s.wire m ++ if m = s.number fd then taken else [] := by
    intro m
    show Function.update s.wire (s.number fd) (s.wire (s.number fd) ++ taken) m = _
    by_cases he : m = s.number fd
    · subst he
      rw [Function.update_self, if_pos rfl]
    · rw [Function.update_of_ne he, if_neg he, List.append_nil]
  have hself : (s.took fd taken).wire (s.number fd) ++ pCC'.sendBuffer.bytes =
      s.storedIn (s.number fd) ++ new.flatMap fun e => e.2.job.packet.bytes := by
    rw [hwire, if_pos rfl, List.append_assoc, hbytes, ← List.append_assoc, h.stream fd pCC hc]
  refine ⟨hkeyed, ?_, ?_, ?_, ?_, ?_, ?_⟩
  · intro fd' c hc'
    obtain ⟨c', hold⟩ := hopen fd' c hc'
    exact h.number_lt fd' c' hold
  · intro fd₁ fd₂ c₁ c₂ h₁ h₂
    obtain ⟨c₁', hold₁⟩ := hopen fd₁ c₁ h₁
    obtain ⟨c₂', hold₂⟩ := hopen fd₂ c₂ h₂
    exact h.apart fd₁ fd₂ c₁' c₂' hold₁ hold₂
  · intro m hm
    have hlt := h.number_lt fd pCC hc
    have hm : s.contexts ≤ m := hm
    show (s.took fd taken).wire m = []
    rw [hwire, if_neg (by omega), List.append_nil]
    exact h.unused m hm
  · intro e he
    rcases List.mem_append.mp he with he | he
    · exact h.appended_lt e he
    · rw [hnew e he]
      exact h.number_lt fd pCC hc
  · intro fd' c hc'
    rw [hstored]
    show (s.took fd taken).wire (s.number fd') ++ c.sendBuffer.bytes =
      s.storedIn (s.number fd') ++ if s.number fd' = s.number fd then _ else []
    have hc' : srv.Clients fd' = some c := hc'
    rw [hclients] at hc'
    by_cases he : fd' = fd
    · subst he
      rw [Function.update_self] at hc'
      obtain rfl := Option.some.inj hc'
      rw [if_pos rfl]
      exact hself
    · rw [Function.update_of_ne he] at hc'
      have hne : s.number fd' ≠ s.number fd := fun heq => he (h.apart fd' fd c pCC hc' hc heq)
      rw [hwire, if_neg hne, if_neg hne, List.append_nil, List.append_nil]
      exact h.stream fd' c hc'
  · intro m
    rw [hstored]
    show (s.took fd taken).wire m <+: _
    by_cases he : m = s.number fd
    · subst he
      rw [if_pos rfl, ← hself]
      exact List.prefix_append _ _
    · rw [hwire, if_neg he, if_neg he, List.append_nil, List.append_nil]
      exact h.prefix_of m

/-- The contexts after an accept: the new one is empty. -/
theorem doAccept_context {srv : Server} {clntSocket : Option Nat} {created : Option (Bool × Bool)}
    {pCC : ClientContext} (hc : (srv.doAccept clntSocket created).Clients fd = some pCC) :
    emplaced srv clntSocket created = some fd ∧ pCC.sendBuffer.bytes = [] ∨
      emplaced srv clntSocket created ≠ some fd ∧ srv.Clients fd = some pCC := by
  cases clntSocket with
  | none => exact .inr ⟨fun h => (by cases h), hc⟩
  | some t =>
    cases created with
    | none => exact .inr ⟨fun h => (by cases h), hc⟩
    | some created =>
      obtain ⟨allocated, initialised⟩ := created
      cases hold : srv.Clients t with
      | none =>
        have hnew : emplaced srv (some t) (some (allocated, initialised)) = some t := by
          simp only [emplaced, hold, Option.isNone_none, if_true]
        rw [hnew]
        simp only [Server.doAccept, Server.createContext, hold] at hc
        by_cases he : fd = t
        · subst he
          rw [Function.update_self] at hc
          obtain rfl := Option.some.inj hc
          exact .inl ⟨rfl, rfl⟩
        · rw [Function.update_of_ne he] at hc
          exact .inr ⟨fun h => he (Option.some.inj h).symm, hc⟩
      | some old =>
        have hnone : emplaced srv (some t) (some (allocated, initialised)) = none := by
          simp only [emplaced, hold, Option.isNone_some, Bool.false_eq_true, if_false]
        rw [hnone]
        simp only [Server.doAccept, Server.createContext, hold] at hc
        exact .inr ⟨fun h => (by cases h), hc⟩

theorem Sent.accept (h : s.Sent) {clntSocket : Option Nat} {created : Option (Bool × Bool)}
    (hkeyed : (s.srv.doAccept clntSocket created).Keyed) :
    ({ s.numbered (emplaced s.srv clntSocket created) with
      srv := s.srv.doAccept clntSocket created } : JobServer).Sent := by
  cases hnew : emplaced s.srv clntSocket created with
  | none =>
    refine h.shrink hkeyed fun fd pCC hc => ?_
    rcases doAccept_context hc with ⟨hfd, -⟩ | ⟨-, hc⟩
    · rw [hnew] at hfd
      cases hfd
    · exact hc
  | some t =>
    -- the contexts but the new one are as before
    have hcases : ∀ fd pCC, (s.srv.doAccept clntSocket created).Clients fd = some pCC →
        fd = t ∧ pCC.sendBuffer.bytes = [] ∨ fd ≠ t ∧ s.srv.Clients fd = some pCC := by
      intro fd pCC hc
      rcases doAccept_context hc with ⟨hfd, hempty⟩ | ⟨hfd, hc⟩
      · rw [hnew] at hfd
        exact .inl ⟨(Option.some.inj hfd).symm, hempty⟩
      · rw [hnew] at hfd
        exact .inr ⟨fun he => hfd (he ▸ rfl), hc⟩
    have hself : (s.numbered (some t)).number t = s.contexts := Function.update_self ..
    have hother : ∀ fd, fd ≠ t → (s.numbered (some t)).number fd = s.number fd :=
      fun fd hne => Function.update_of_ne hne ..
    have hnone : s.storedIn s.contexts = [] := by
      have hfilter : s.appended.filter (fun e => e.1 = s.contexts) = [] := by
        rw [List.filter_eq_nil_iff]
        intro e he heq
        exact Nat.ne_of_lt (h.appended_lt e he) (of_decide_eq_true heq)
      rw [storedIn, hfilter]
      rfl
    refine ⟨hkeyed, ?_, ?_, ?_, ?_, ?_, h.prefix_of⟩
    · intro fd pCC hc
      show (s.numbered (some t)).number fd < s.contexts + 1
      rcases hcases fd pCC hc with ⟨rfl, -⟩ | ⟨hne, hc⟩
      · rw [hself]
        exact Nat.lt_succ_self _
      · rw [hother fd hne]
        exact Nat.lt_succ_of_lt (h.number_lt fd pCC hc)
    · intro fd fd' pCC pCC' hc hc' heq
      have heq : (s.numbered (some t)).number fd = (s.numbered (some t)).number fd' := heq
      rcases hcases fd pCC hc with ⟨rfl, -⟩ | ⟨hne, hold⟩
      · rcases hcases fd' pCC' hc' with ⟨rfl, -⟩ | ⟨hne', hold'⟩
        · rfl
        · rw [hself, hother fd' hne'] at heq
          exact absurd (h.number_lt fd' pCC' hold') (heq ▸ Nat.lt_irrefl _)
      · rcases hcases fd' pCC' hc' with ⟨rfl, -⟩ | ⟨hne', hold'⟩
        · rw [hself, hother fd hne] at heq
          exact absurd (h.number_lt fd pCC hold) (heq ▸ Nat.lt_irrefl _)
        · rw [hother fd hne, hother fd' hne'] at heq
          exact h.apart fd fd' pCC pCC' hold hold' heq
    · intro m hm
      have hm : s.contexts + 1 ≤ m := hm
      exact h.unused m (Nat.le_of_succ_le hm)
    · intro e he
      exact Nat.lt_succ_of_lt (h.appended_lt e he)
    · intro fd pCC hc
      show s.wire ((s.numbered (some t)).number fd) ++ pCC.sendBuffer.bytes =
        s.storedIn ((s.numbered (some t)).number fd)
      rcases hcases fd pCC hc with ⟨rfl, hempty⟩ | ⟨hne, hold⟩
      · rw [hself, hempty, hnone, h.unused _ (Nat.le_refl _)]
        rfl
      · rw [hother fd hne]
        exact h.stream fd pCC hold

/-- A disconnect takes away one context. -/
theorem doRecv_context {srv : Server} {strLen : Option Nat} {pCC : ClientContext} {t : Nat}
    (hc : (srv.doRecv t strLen).Clients fd = some pCC) : srv.Clients fd = some pCC := by
  by_cases he : fd = t
  · subst he
    by_cases hzero : strLen = some 0
    · subst hzero
      rw [Server.doRecv_disconnect] at hc
      cases hc
    · rw [Server.doRecv, if_neg hzero] at hc
      exact hc
  · rwa [Server.doRecv_clients he] at hc

theorem step_sent (h : s.Sent) (hs : step s a = some s') : s'.Sent := by
  cases a with
  | accept clntSocket created =>
    obtain ⟨hen, rfl⟩ := step_accept hs
    exact h.accept (Server.keyed_step h.keyed (Server.step_eq_some.mpr ⟨hen, rfl⟩))
  | recv fd strLen =>
    obtain rfl := step_recv hs
    exact h.shrink (Server.keyed_doRecv h.keyed fd strLen) fun _ _ hc => doRecv_context hc
  | onReceive job =>
    obtain ⟨jobs, -, -, rfl⟩ := step_onReceive hs
    exact h.shrink h.keyed fun _ _ hc => hc
  | take =>
    obtain ⟨jobs, -, rfl⟩ := step_take hs
    exact h.shrink h.keyed fun _ _ hc => hc
  | execute nRet =>
    obtain ⟨q, jobs, -, ⟨pCC, hc, hf, hoffered, -, rfl⟩ | ⟨hno, -, rfl⟩⟩ :=
      step_execute h.keyed hs
    · obtain ⟨hbytes, -⟩ := ClientContext.sendMsg_fits (h.keyed _ pCC hc).1 hf hoffered
      have hclients : (s.srv.sendMsg q.job.socket q.job.packet nRet).Clients =
          Function.update s.srv.Clients q.job.socket
            (some (pCC.sendMsg (some q.job.packet) nRet).1) := by
        simp only [Server.sendMsg, hc]
      have hkeyed : (s.srv.sendMsg q.job.socket q.job.packet nRet).Keyed := by
        unfold Server.Keyed
        rw [hclients, (Server.sendMsg_opened s.srv q.job.socket q.job.packet nRet).1]
        exact h.keyed.update hc ((h.keyed _ pCC hc).1.sendMsg _ nRet)
          (Server.sendMsg_socket pCC _ nRet)
      refine h.exchange _ _ hc hkeyed hclients (fun e he => ?_) ?_
      · obtain rfl := List.mem_singleton.mp he
        rfl
      · rw [hbytes, List.flatMap_singleton]
    · obtain ⟨-, -, hclients⟩ := sent_refused nRet h.keyed hno
      refine h.shrink ?_ fun fd pCC hc => hclients ▸ hc
      unfold Server.Keyed
      rw [hclients, (Server.sendMsg_opened s.srv q.job.socket q.job.packet nRet).1]
      exact h.keyed
  | resumeSend fd nRet =>
    obtain ⟨hen, rfl⟩ := step_resumeSend hs
    have hkeyed : (s.srv.resumeSend fd nRet).Keyed :=
      Server.keyed_step h.keyed (Server.step_eq_some.mpr ⟨hen, rfl⟩)
    cases hc : s.srv.Clients fd with
    | none =>
      have hsame : s.srv.resumeSend fd nRet = s.srv := by simp only [Server.resumeSend, hc]
      rw [hsame, Option.elim_none, took_nil]
      exact h
    | some pCC =>
      obtain ⟨hbytes, -⟩ := ClientContext.resumeSend_spec (h.keyed fd pCC hc).1 (hen.2 pCC hc).1
      have hclients : (s.srv.resumeSend fd nRet).Clients =
          Function.update s.srv.Clients fd (some (pCC.resumeSend nRet).1) := by
        simp only [Server.resumeSend, hc]
      have hexchange := h.exchange s.jobs [] hc hkeyed hclients
        (fun e he => by cases he) (by rw [hbytes]; exact (List.append_nil _).symm)
      rw [List.append_nil] at hexchange
      exact hexchange

/-! ## Whose packets, and in which order -/

/-- Every job received is pending or finished, once, and those finished are those whose packets
have been stored. -/
structure JobsKept (s : JobServer) : Prop where
  kept : s.jobs.Kept
  places : s.jobs.received.map Request.place = List.range s.jobs.received.length
  finished : s.appended.map Prod.snd = s.jobs.finished

theorem jobsKept_init (listenSocket : Nat) : (init listenSocket).JobsKept where
  kept := Queue.kept_init
  places := rfl
  finished := rfl

theorem JobsKept.nodup (h : s.JobsKept) : s.jobs.received.Nodup := by
  apply List.Nodup.of_map Request.place
  rw [h.places]
  exact List.nodup_range

/-- What a step does to the queue and the packets stored. -/
theorem step_jobs (hkeyed : s.srv.Keyed) (hs : step s a = some s') :
    s'.jobs = s.jobs ∧ s'.appended = s.appended ∧ s.KeepsAnswers a ∨
      (∃ q, Queue.step s.jobs (.arrive q) = some s'.jobs ∧ q.place = s.jobs.received.length ∧
        s'.appended = s.appended ∧ s.KeepsAnswers a) ∨
      Queue.step s.jobs .take = some s'.jobs ∧ s'.appended = s.appended ∧ s.KeepsAnswers a ∨
      ∃ q, s.jobs.running = some q ∧
        (s.Stores q ∧ Queue.step s.jobs .finish = some s'.jobs ∧
            s'.appended = s.appended ++ [(s.number q.job.socket, q)] ∧
            (s.KeepsAnswers a ↔ s.number q.job.socket = q.origin) ∨
          ¬ s.Stores q ∧ Queue.step s.jobs .putBack = some s'.jobs ∧
            s'.appended = s.appended ∧
            (s.KeepsAnswers a ↔ s.jobs.KeepsOrder Request.origin .putBack)) := by
  cases a with
  | accept clntSocket created =>
    obtain ⟨-, rfl⟩ := step_accept hs
    refine .inl ⟨?_, ?_, trivial⟩
    · cases emplaced s.srv clntSocket created <;> rfl
    · cases emplaced s.srv clntSocket created <;> rfl
  | recv fd strLen =>
    obtain rfl := step_recv hs
    exact .inl ⟨rfl, rfl, trivial⟩
  | onReceive job =>
    obtain ⟨jobs, -, hjobs, rfl⟩ := step_onReceive hs
    exact .inr (.inl ⟨_, hjobs, rfl, rfl, trivial⟩)
  | take =>
    obtain ⟨jobs, hjobs, rfl⟩ := step_take hs
    exact .inr (.inr (.inl ⟨hjobs, rfl, trivial⟩))
  | execute nRet =>
    obtain ⟨q, jobs, hq, ⟨pCC, hc, hf, -, hjobs, rfl⟩ | ⟨hno, hjobs, rfl⟩⟩ :=
      step_execute hkeyed hs
    · have hstores : s.Stores q := ⟨pCC, hc, hf⟩
      refine .inr (.inr (.inr ⟨q, hq, .inl ⟨hstores, hjobs, rfl, ?_⟩⟩))
      simp only [KeepsAnswers, hq, Option.mem_some, forall_eq', hstores, true_imp_iff,
        not_true_eq_false, false_imp_iff, and_true]
    · refine .inr (.inr (.inr ⟨q, hq, .inr ⟨hno, hjobs, rfl, ?_⟩⟩))
      simp only [KeepsAnswers, Queue.KeepsOrder, hq, Option.mem_some, forall_eq', hno,
        false_imp_iff, not_false_eq_true, true_imp_iff, true_and]
  | resumeSend fd nRet =>
    obtain ⟨-, rfl⟩ := step_resumeSend hs
    exact .inl ⟨rfl, rfl, trivial⟩

theorem step_jobsKept (hkeyed : s.srv.Keyed) (h : s.JobsKept) (hs : step s a = some s') :
    s'.JobsKept := by
  rcases step_jobs hkeyed hs with ⟨hjobs, happended, -⟩ | ⟨q, hjobs, hplace, happended, -⟩ |
    ⟨hjobs, happended, -⟩ | ⟨q, hq, ⟨-, hjobs, happended, -⟩ | ⟨-, hjobs, happended, -⟩⟩
  · exact ⟨hjobs ▸ h.kept, hjobs ▸ h.places, by rw [happended, hjobs]; exact h.finished⟩
  · have hkept := Queue.step_kept h.kept hjobs
    have harrived := Option.some.inj hjobs
    refine ⟨hkept, ?_, ?_⟩
    · rw [← harrived]
      show (s.jobs.received ++ [q]).map Request.place = List.range (s.jobs.received ++ [q]).length
      rw [List.map_append, h.places, List.length_append, List.length_singleton, List.range_succ,
        List.map_singleton, hplace]
    · rw [happended, ← harrived]
      exact h.finished
  · have hkept := Queue.step_kept h.kept hjobs
    obtain ⟨x, rest, -, -, hafter⟩ := Queue.step_take hjobs
    exact ⟨hkept, by rw [hafter]; exact h.places, by rw [happended, hafter]; exact h.finished⟩
  · have hkept := Queue.step_kept h.kept hjobs
    obtain ⟨x, hx, hafter⟩ := Queue.step_finish hjobs
    obtain rfl := Option.some.inj (hq.symm.trans hx)
    refine ⟨hkept, by rw [hafter]; exact h.places, ?_⟩
    rw [happended, hafter, List.map_append, h.finished]
    rfl
  · have hkept := Queue.step_kept h.kept hjobs
    obtain ⟨x, -, hafter⟩ := Queue.step_putBack hjobs
    exact ⟨hkept, by rw [hafter]; exact h.places, by rw [happended, hafter]; exact h.finished⟩

/-- A step keeps the answers right exactly if it keeps to the condition. -/
theorem step_answers (hkeyed : s.srv.Keyed) (hkept : s.JobsKept) (h : s.Answers)
    (hs : step s a = some s') : s'.Answers ↔ s.KeepsAnswers a := by
  obtain ⟨hown, horder⟩ := h
  have hsame : s'.appended = s.appended → s'.Own := fun he => by
    unfold Own
    rw [he]
    exact hown
  rcases step_jobs hkeyed hs with ⟨hjobs, happended, ha⟩ | ⟨q, hjobs, -, happended, ha⟩ |
    ⟨hjobs, happended, ha⟩ | ⟨q, hq, ⟨-, hjobs, happended, ha⟩ | ⟨-, hjobs, happended, ha⟩⟩
  · exact iff_of_true ⟨hsame happended, hjobs ▸ horder⟩ ha
  · exact iff_of_true
      ⟨hsame happended, Queue.step_inOrder (a := .arrive q) horder trivial hjobs⟩ ha
  · exact iff_of_true ⟨hsame happended, Queue.step_inOrder (a := .take) horder trivial hjobs⟩ ha
  · rw [ha]
    have hin := Queue.step_inOrder (a := .finish) horder trivial hjobs
    constructor
    · intro hanswers
      apply hanswers.1 (s.number q.job.socket, q)
      rw [happended]
      exact List.mem_append_right _ List.mem_cons_self
    · intro he
      refine ⟨fun e hmem => ?_, hin⟩
      rw [happended] at hmem
      rcases List.mem_append.mp hmem with hmem | hmem
      · exact hown e hmem
      · obtain rfl := List.mem_singleton.mp hmem
        exact he
  · rw [ha]
    constructor
    · intro hanswers
      by_contra hno
      exact Queue.step_overtaken hkept.nodup hkept.kept horder hno hjobs hanswers.2
    · intro hkeeps
      exact ⟨hsame happended, Queue.step_inOrder horder hkeeps hjobs⟩

/-- What every state has. -/
def Inv (s : JobServer) : Prop := s.Sent ∧ s.JobsKept

theorem step_inv (h : s.Inv) (hs : step s a = some s') : s'.Inv :=
  ⟨step_sent h.1 hs, step_jobsKept h.1.keyed h.2 hs⟩

theorem inv_init (listenSocket : Nat) : (init listenSocket).Inv :=
  ⟨sent_init listenSocket, jobsKept_init listenSocket⟩

theorem answers_init (listenSocket : Nat) : (init listenSocket).Answers :=
  ⟨fun e he => (by cases he), Queue.inOrder_init Request.origin⟩

/-- In every state each packet stored is in the context of its request, and the packets of a client
are stored in the order of its requests, if and only if every step keeps to the condition. -/
theorem answers_iff {listenSocket : Nat} {acts : List JobAct}
    (hr : run step (init listenSocket) acts = some s) :
    Always step Answers (init listenSocket) acts ↔
      Meets step KeepsAnswers (init listenSocket) acts :=
  always_iff_meets (P := Answers) (I := fun s => s.Inv ∧ s.Answers) (fun _ h => h.2)
    (fun _ _ _ h ha hs =>
      ⟨step_inv h.1 hs, (step_answers h.1.1.keyed h.1.2 h.2 hs).mpr ha⟩)
    (fun _ _ _ h ha hs hanswers =>
      ha ((step_answers h.1.1.keyed h.1.2 h.2 hs).mp hanswers))
    ⟨inv_init listenSocket, answers_init listenSocket⟩ hr

def echoJob (fd reqNo : Nat) : EchoJob :=
  { socket := fd, reqNo := reqNo, param := List.replicate 84 65, param_length := by decide }

/-- Two clients with a request each; the reply of the second goes out in two parts. -/
def twoClients : List JobAct :=
  [.accept (some 5) (some (true, true)), .onReceive (echoJob 5 1),
    .accept (some 6) (some (true, true)), .onReceive (echoJob 6 2), .take, .execute (some 96),
    .take, .execute (some 50), .resumeSend 6 (some 46)]

theorem answers_iff_two : Always step Answers (init 3) twoClients := by
  have hrun : (run step (init 3) twoClients).isSome = true := by decide +kernel
  obtain ⟨s, hs⟩ := Option.isSome_iff_exists.mp hrun
  exact (answers_iff hs).mpr (by decide +kernel)

/-- Where the answers are right, what is stored in a context are the replies to its requests that
are finished. -/
theorem storedIn_eq (hkept : s.JobsKept) (hown : s.Own) (m : Nat) :
    s.storedIn m =
      (Queue.withKey Request.origin m s.jobs.finished).flatMap fun q => q.job.packet.bytes := by
  rw [storedIn, ← hkept.finished, Queue.withKey, List.filter_map, List.flatMap_map]
  congr 1
  apply List.filter_congr
  intro e he
  show decide (e.1 = m) = decide (e.2.origin = m)
  rw [hown e he]

/-- Every client gets the replies to its requests in order, each once, as far as the kernel has
taken them; and all of them, when none is pending and its buffer is empty. -/
theorem replies_prefix {listenSocket : Nat} {acts : List JobAct}
    (hkeeps : Meets step KeepsAnswers (init listenSocket) acts)
    (hr : run step (init listenSocket) acts = some s) (m : Nat) :
    s.wire m <+: s.replies m ∧
      ∀ fd, ∀ pCC ∈ s.srv.Clients fd, s.number fd = m → pCC.sendBuffer.bytes = [] →
        (∀ q ∈ s.jobs.pending, q.origin ≠ m) → s.wire m = s.replies m := by
  obtain ⟨⟨hsent, hkept⟩, hown, horder⟩ : s.Inv ∧ s.Answers :=
    run_invariant (I := fun s => s.Inv ∧ s.Answers)
      (fun _ _ _ h ha hs => ⟨step_inv h.1 hs, (step_answers h.1.1.keyed h.1.2 h.2 hs).mpr ha⟩)
      ⟨inv_init listenSocket, answers_init listenSocket⟩ hkeeps hr
  obtain ⟨hstored, hall⟩ := (horder m).prefix_of
  constructor
  · refine (hsent.prefix_of m).trans ?_
    rw [storedIn_eq hkept hown, replies]
    obtain ⟨rest, hrest⟩ := hstored
    rw [← hrest, List.flatMap_append]
    exact List.prefix_append _ _
  · rintro fd pCC hc rfl hempty hpending
    have hstream := hsent.stream fd pCC hc
    rw [hempty, List.append_nil] at hstream
    rw [hstream, storedIn_eq hkept hown, replies, hall hpending]

/-- The second client has got its reply. -/
theorem replies_prefix_two : ∃ s, run step (init 3) twoClients = some s ∧
    s.wire 1 = (echoJob 6 2).packet.bytes := by
  have hend : (run step (init 3) twoClients).map (fun s =>
      decide (s.number 6 = 1 ∧ s.jobs.pending.map Request.place = [] ∧
        s.replies 1 = (echoJob 6 2).packet.bytes ∧
        (s.srv.Clients 6).map (fun pCC => pCC.sendBuffer.bytes) = some [])) = some true := by
    decide +kernel
  obtain ⟨s, hs, hrest⟩ := Option.map_eq_some_iff.mp hend
  obtain ⟨hnumber, hpending, hreplies, hbuffer⟩ := of_decide_eq_true hrest
  obtain ⟨pCC, hc, hempty⟩ := Option.map_eq_some_iff.mp hbuffer
  obtain ⟨-, hall⟩ := replies_prefix (by decide +kernel) hs 1
  refine ⟨s, hs, (hall 6 pCC hc hnumber hempty fun q hq => ?_).trans hreplies⟩
  rw [List.map_eq_nil_iff.mp hpending] at hq
  cases hq

/-! ## A client that has gone -/

/-- Nobody gets the socket. -/
def NotAccepted (fd : Nat) (_ : JobServer) : JobAct → Prop
  | .accept clntSocket _ => clntSocket ≠ some fd
  | _ => True

instance (fd : Nat) (s : JobServer) : DecidablePred (NotAccepted fd s)
  | .accept clntSocket _ => inferInstanceAs (Decidable (clntSocket ≠ some fd))
  | .recv _ _ => .isTrue trivial
  | .onReceive _ => .isTrue trivial
  | .take => .isTrue trivial
  | .execute _ => .isTrue trivial
  | .resumeSend _ _ => .isTrue trivial

/-- No step but an accept of the socket makes a context for it. -/
theorem step_gone (hkeyed : s.srv.Keyed) (hgone : s.srv.Clients fd = none)
    (ha : NotAccepted fd s a) (hs : step s a = some s') : s'.srv.Clients fd = none := by
  by_contra hsome
  obtain ⟨pCC, hc⟩ := Option.ne_none_iff_exists'.mp hsome
  have hnone : ∀ {c : ClientContext}, s.srv.Clients fd ≠ some c := fun h => by
    rw [hgone] at h
    cases h
  cases a with
  | accept clntSocket created =>
    obtain ⟨-, rfl⟩ := step_accept hs
    rcases doAccept_context hc with ⟨hnew, -⟩ | ⟨-, hold⟩
    · cases clntSocket with
      | none => cases hnew
      | some t =>
        cases created with
        | none => cases hnew
        | some created =>
          simp only [emplaced] at hnew
          split at hnew
          · exact ha hnew
          · cases hnew
    · exact hnone hold
  | recv t strLen =>
    obtain rfl := step_recv hs
    exact hnone (doRecv_context hc)
  | onReceive job =>
    obtain ⟨jobs, -, -, rfl⟩ := step_onReceive hs
    exact hnone hc
  | take =>
    obtain ⟨jobs, -, rfl⟩ := step_take hs
    exact hnone hc
  | execute nRet =>
    obtain ⟨q, jobs, -, ⟨pCC', hc', -, -, -, rfl⟩ | ⟨hno, -, rfl⟩⟩ := step_execute hkeyed hs
    · have hne : fd ≠ q.job.socket := by
        rintro rfl
        exact hnone hc'
      simp only [Server.sendMsg, hc', Function.update_of_ne hne] at hc
      exact hnone hc
    · obtain ⟨-, -, hclients⟩ := sent_refused nRet hkeyed hno
      exact hnone (hclients ▸ hc)
  | resumeSend t nRet =>
    obtain ⟨-, rfl⟩ := step_resumeSend hs
    cases ht : s.srv.Clients t with
    | none =>
      simp only [Server.resumeSend, ht] at hc
      exact hnone hc
    | some pCC' =>
      have hne : fd ≠ t := by
        rintro rfl
        exact hnone ht
      simp only [Server.resumeSend, ht, Function.update_of_ne hne] at hc
      exact hnone hc

/-- The job of a client that has gone stays pending. -/
theorem step_orphan (hkeyed : s.srv.Keyed) (hgone : s.srv.Clients q.job.socket = none)
    (hq : q ∈ s.jobs.pending) (hs : step s a = some s') : q ∈ s'.jobs.pending := by
  rcases step_jobs hkeyed hs with ⟨hjobs, -, -⟩ | ⟨x, hjobs, -⟩ | ⟨hjobs, -⟩ |
    ⟨x, hx, ⟨hstores, hjobs, -⟩ | ⟨-, hjobs, -⟩⟩
  · exact hjobs ▸ hq
  · rw [← Option.some.inj hjobs]
    show q ∈ s.jobs.running.toList ++ (s.jobs.queue ++ [x])
    rw [← List.append_assoc]
    exact List.mem_append_left _ hq
  · obtain ⟨x, rest, hrunning, hqueue, hafter⟩ := Queue.step_take hjobs
    rw [Queue.pending, hrunning, hqueue] at hq
    rw [hafter]
    exact hq
  · obtain ⟨x', hx', hafter⟩ := Queue.step_finish hjobs
    obtain rfl := Option.some.inj (hx.symm.trans hx')
    rw [Queue.pending, hx] at hq
    rw [hafter]
    rcases List.mem_cons.mp hq with rfl | hq
    · obtain ⟨pCC, hc, -⟩ := hstores
      rw [hgone] at hc
      cases hc
    · exact hq
  · obtain ⟨x', hx', hafter⟩ := Queue.step_putBack hjobs
    obtain rfl := Option.some.inj (hx.symm.trans hx')
    rw [Queue.pending, hx] at hq
    rw [hafter]
    show q ∈ s.jobs.queue ++ [x]
    rcases List.mem_cons.mp hq with rfl | hq
    · exact List.mem_append_right _ List.mem_cons_self
    · exact List.mem_append_left _ hq

/-- A job whose socket has no context is pending for ever, if nobody gets the socket. -/
theorem orphan_stays {listenSocket : Nat} {before acts : List JobAct}
    (hbefore : run step (init listenSocket) before = some s)
    (hgone : s.srv.Clients q.job.socket = none) (hq : q ∈ s.jobs.pending)
    (hnot : Meets step (NotAccepted q.job.socket) s acts) (hr : run step s acts = some s') :
    q ∈ s'.jobs.pending ∧ q ∉ s'.jobs.finished := by
  have hinv := run_stable (fun _ _ _ h hs => step_inv h hs) (inv_init listenSocket) hbefore
  obtain ⟨hinv', -, hpending⟩ := run_invariant
    (I := fun s => s.Inv ∧ s.srv.Clients q.job.socket = none ∧ q ∈ s.jobs.pending)
    (fun _ _ _ h ha hs => ⟨step_inv h.1 hs, step_gone h.1.1.keyed h.2.1 ha hs,
      step_orphan h.1.1.keyed h.2.1 h.2.2 hs⟩) ⟨hinv, hgone, hq⟩ hnot hr
  refine ⟨hpending, fun hfinished => ?_⟩
  have hnodup := hinv'.2.kept.nodup_iff.mpr hinv'.2.nodup
  exact (List.nodup_append.mp hnodup).2.2 q hfinished q hpending rfl

/-- A client leaves behind its request, and the job thread finds no context for it. -/
theorem orphan_stays_left : ∃ s s' q, run step (init 3) [.accept (some 5) (some (true, true)),
    .onReceive (echoJob 5 1), .recv 5 (some 0)] = some s ∧
    run step s [.take, .execute none, .take, .execute none] = some s' ∧
    q ∈ s'.jobs.pending ∧ q ∉ s'.jobs.finished := by
  have hend : ((run step (init 3) [.accept (some 5) (some (true, true)),
      .onReceive (echoJob 5 1), .recv 5 (some 0)]).bind fun s =>
      (run step s [.take, .execute none, .take, .execute none]).map fun _ =>
        decide ((s.srv.Clients 5).isNone = true ∧
          5 ∈ s.jobs.pending.map (fun q => q.job.socket) ∧
          Meets step (NotAccepted 5) s [.take, .execute none, .take, .execute none])) =
        some true := by decide +kernel
  obtain ⟨s, hs, hend⟩ := Option.bind_eq_some_iff.mp hend
  obtain ⟨s', hs', hrest⟩ := Option.map_eq_some_iff.mp hend
  obtain ⟨hgone, hpending, hnot⟩ := of_decide_eq_true hrest
  obtain ⟨q, hq, hsocket⟩ := List.mem_map.mp hpending
  rw [← hsocket, Option.isNone_iff_eq_none] at hgone
  rw [← hsocket] at hnot
  exact ⟨s, s', q, hs, hs', orphan_stays hs hgone hq hnot hs'⟩

end JobServer

end SelectServer
