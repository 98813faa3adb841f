import SocketServerLib.IOCPServer.Reset
import SocketServerLib.Lib.Counting

/-
  The job threads of the IOCP server: requests of all clients go through one queue to any number
  of threads, and a job has the index of its client and nothing else of the connection.

  `createJob` and `push` are the two halves of `OnReceive`. A thread pops a job; `execute` is
  `EchoJob::Execute` up to the lock of `Connection::SendMsg`, with the tests in front of it, and
  `store` what runs under the lock; `settle` is the switch of `JobThread`. `reset` is `Close` and
  `ResetConnection`, `accept` the `DoAccept` of the next client on the index; `reSend` and `doSend`
  are the calls that `WorkerThread` makes for an entry of a send.

  `sessions i` is how often connection `i` has been reset. A request has its number among those
  received, its client and the session in which it has been received; `stored` lists the packets
  that have come into a send buffer, each with the connection, its session and its request. These
  are ghosts, as are `succeeded` and `dropped`, the jobs that are through.

  What is proved:
    1. `kept_run` — each request is awaiting its execution, answered or given up, and only one.
    2. `stored_once_iff` — in every state each answered request has its packet in a send buffer
       once and no other request has one, if and only if no post fails on an idle connection.

  What is assumed: nothing of when the entries of sends come in. `accept`, `reset`, `reSend` and
  `doSend` may come at any time, with no `AcceptEx` and no `WSASend` outstanding as well, so that
  the runs here are those of the server and more; `Misdelivery` has what is outstanding.
-/
namespace IOCPServer
open RacingGameServer (Bytes SlideBuffer leEncode leEncode_length)
open LabelledRun

deriving instance DecidableEq for EchoJob

theorem initPacket_length (job : EchoJob) :
    (initPacket [] .REQ_SUCCESS job.reqNo job.param).length = 96 := by
  rw [initPacket_param [] .REQ_SUCCESS job.reqNo job.param_length]
  simp only [List.length_append, leEncode_length, job.param_length]
  rfl

/-- The packet that `Execute` sends. -/
def EchoJob.packet (job : EchoJob) : PacketData where
  bytes := initPacket [] .REQ_SUCCESS job.reqNo job.param
  size_pos := by
    rw [initPacket_length]
    decide
  size_le := by
    rw [initPacket_length]
    decide

/-- `GameServer::SendResultMsg`. -/
def sendResultMsg (bRet : Bool) : InfoCode := if bRet = true then .REQ_SUCCESS else .NOT_FINISHED

structure Request where
  job : EchoJob
  place : Nat
  client : Nat
  session : Nat
  deriving DecidableEq

/-- Where a thread is in the loop of `JobThread`. -/
inductive LoopPoint where
  | idle
  | running (pJob : Request)
  | entered (pJob : Request)
  | returned (pJob : Request) (eRet : InfoCode)
  deriving DecidableEq

structure Stored where
  connection : Nat
  session : Nat
  request : Request
  deriving DecidableEq

structure JobThreads where
  conns : Nat → Connection
  size : Nat
  sessions : Nat → Nat
  creating : List Request
  queue : List Request
  hands : List LoopPoint
  received : List Request
  stored : List Stored
  succeeded : List Request
  dropped : List Request

/-- `packet` is whether the pool gives out a packet, `post` the answer of `WSASend`. -/
inductive JobAct where
  | accept (i : Nat)
  | reset (i : Nat)
  | reSend (i : Nat) (post : Bool)
  | doSend (i : Nat) (post : Bool)
  | createJob (i : Nat) (job : EchoJob)
  | push (k : Nat)
  | pop (w : Nat)
  | execute (w : Nat) (packet : Bool)
  | store (w : Nat) (post : Bool)
  | settle (w : Nat)

namespace JobThreads

/-- `Start` has reset every connection once. -/
def init (uMaxClient_ threads : Nat) : JobThreads :=
  { conns := fun _ => { Connection.connected with isConnected := false }, size := uMaxClient_
    sessions := fun _ => 0, creating := [], queue := [], hands := List.replicate threads .idle
    received := [], stored := [], succeeded := [], dropped := [] }

def setConn (s : JobThreads) (i : Nat) (c : Connection) : JobThreads :=
  { s with conns := Function.update s.conns i c }

def setHand (s : JobThreads) (w : Nat) (h : LoopPoint) : JobThreads :=
  { s with hands := s.hands.set w h }

def getConnection (s : JobThreads) (uClientIndex_ : Nat) : Option Connection :=
  if uClientIndex_ < s.size then some (s.conns uClientIndex_) else none

/-- `Execute` up to the lock of `SendMsg`. -/
def executed (s : JobThreads) (pJob : Request) (packet : Bool) : LoopPoint :=
  if packet = false then .returned pJob .OTHER_ERR
  else
    match s.getConnection pJob.job.userIndex with
    | none => .returned pJob (sendResultMsg false)
    | some c =>
      if c.isConnected = false then .returned pJob (sendResultMsg false) else .entered pJob

/-- The connection takes the packet. -/
def enqueues (c : Connection) (p : PacketData) : Bool :=
  (c.sendBuffer.enqueue (some p.bytes) p.bytes.length).2

/-- What `stored` lists for the packet of the job. -/
def entry (s : JobThreads) (pJob : Request) : Stored :=
  { connection := pJob.job.userIndex, session := s.sessions pJob.job.userIndex, request := pJob }

/-- `SendMsg` under the lock, and the return of `Execute`. -/
def storePacket (s : JobThreads) (w : Nat) (pJob : Request) (post : Bool) : JobThreads :=
  let i := pJob.job.userIndex
  let r := (s.conns i).store pJob.job.packet post
  { (s.setConn i r.1).setHand w (.returned pJob (sendResultMsg r.2.1)) with
    stored :=
      if enqueues (s.conns i) pJob.job.packet = true then s.stored ++ [s.entry pJob]
      else s.stored }

/-- The switch of `JobThread`. -/
def settle (s : JobThreads) (w : Nat) (pJob : Request) : InfoCode → JobThreads
  | .REQ_SUCCESS => { s.setHand w .idle with succeeded := s.succeeded ++ [pJob] }
  | .NOT_FINISHED => { s.setHand w .idle with queue := s.queue ++ [pJob] }
  | _ => { s.setHand w .idle with dropped := s.dropped ++ [pJob] }

/-- The job that `OnReceive` creates for a message of client `i`. -/
def request (s : JobThreads) (i : Nat) (job : EchoJob) : Request :=
  { job := job, place := s.received.length, client := i, session := s.sessions i }

def step (s : JobThreads) : JobAct → Option JobThreads
  | .accept i =>
    if i < s.size ∧ (s.conns i).isConnected = false then
      some (s.setConn i { s.conns i with isConnected := true })
    else none
  | .reset i =>
    if i < s.size then
      some { s.setConn i (s.conns i).reset with
        sessions := Function.update s.sessions i (s.sessions i + 1) }
    else none
  | .reSend i post => some (s.setConn i ((s.conns i).reSend post).1)
  | .doSend i post => some (s.setConn i ((s.conns i).sendCompleted post).1)
  | .createJob i job =>
    if i < s.size ∧ job.userIndex = i % 2 ^ 16 then
      some { s with
        creating := s.creating ++ [s.request i job], received := s.received ++ [s.request i job] }
    else none
  | .push k =>
    match s.creating[k]? with
    | none => none
    | some pJob => some { s with creating := s.creating.eraseIdx k, queue := s.queue ++ [pJob] }
  | .pop w =>
    match s.hands[w]?, s.queue with
    | some .idle, pJob :: rest => some { s.setHand w (.running pJob) with queue := rest }
    | _, _ => none
  | .execute w packet =>
    match s.hands[w]? with
    | some (.running pJob) => some (s.setHand w (s.executed pJob packet))
    | _ => none
  | .store w post =>
    match s.hands[w]? with
    | some (.entered pJob) => some (s.storePacket w pJob post)
    | _ => none
  | .settle w =>
    match s.hands[w]? with
    | some (.returned pJob eRet) => some (s.settle w pJob eRet)
    | _ => none

/-! ## Where the requests are -/

/-- The jobs that will be executed, as they are in a hand. -/
def awaits : LoopPoint → List Request
  | .running pJob => [pJob]
  | .entered pJob => [pJob]
  | .returned pJob .NOT_FINISHED => [pJob]
  | _ => []

def succeeds : LoopPoint → List Request
  | .returned pJob .REQ_SUCCESS => [pJob]
  | _ => []

def drops : LoopPoint → List Request
  | .returned pJob .REQ_FAILED => [pJob]
  | .returned pJob .NULLPTR_ON_FUNCPTR => [pJob]
  | .returned pJob .OTHER_ERR => [pJob]
  | _ => []

/-- The requests that await their execution. -/
def awaiting (s : JobThreads) : List Request := s.creating ++ s.queue ++ s.hands.flatMap awaits

/-- The requests for which `SendMsg` has returned true. -/
def answered (s : JobThreads) : List Request := s.succeeded ++ s.hands.flatMap succeeds

/-- The requests that no thread will execute again, and that have no answer. -/
def givenUp (s : JobThreads) : List Request := s.dropped ++ s.hands.flatMap drops

def replies (s : JobThreads) : List Request := s.stored.map Stored.request

/-- Each answered request has its packet in a send buffer once, and no other request has one. -/
def StoredOnce (s : JobThreads) : Prop := ∀ pJob, s.replies.count pJob = s.answered.count pJob

/-- The post of a packet on an idle connection succeeds. -/
def Posts (s : JobThreads) : JobAct → Prop
  | .store w post =>
    ∀ pJob, s.hands[w]? = some (.entered pJob) →
      enqueues (s.conns pJob.job.userIndex) pJob.job.packet = true →
        (s.conns pJob.job.userIndex).sendLen = 0 → post = true
  | _ => True

instance (s : JobThreads) : DecidablePred s.Posts
  | .store w post =>
    match hw : s.hands[w]? with
    | some (.entered pJob) =>
      decidable_of_iff (enqueues (s.conns pJob.job.userIndex) pJob.job.packet = true →
          (s.conns pJob.job.userIndex).sendLen = 0 → post = true)
        ⟨fun h q hq => by
          obtain rfl := LoopPoint.entered.inj (Option.some.inj (hw.symm.trans hq))
          exact h, fun h => h pJob hw⟩
    | none | some .idle | some (.running _) | some (.returned _ _) =>
      .isTrue fun q hq => by
        rw [hw] at hq
        cases hq
  | .accept _ | .reset _ | .reSend _ _ | .doSend _ _ | .createJob _ _ | .push _ | .pop _
  | .execute _ _ | .settle _ => .isTrue trivial

def IsReset : JobAct → Prop
  | .reset _ => True
  | _ => False

/-- The job in a hand. -/
def holds : LoopPoint → List Request
  | .idle => []
  | .running pJob => [pJob]
  | .entered pJob => [pJob]
  | .returned pJob _ => [pJob]

variable {s s' t : JobThreads} {a : JobAct} {acts : List JobAct} {h g : LoopPoint} {w : Nat}
  {pJob : Request} {eRet : InfoCode} {n threads : Nat}

/-! ## The calls -/

/-- `Execute` that returns in front of the lock is `EchoJob::Execute`. -/
theorem execute_returned {packet : Bool} {eRet : InfoCode} (post : Bool)
    (hexecuted : s.executed pJob packet = .returned pJob eRet) :
    eRet = (pJob.job.execute true (if packet = true then some [] else none)
      (some fun i _ => sendResultMsg (((s.getConnection i).map fun c =>
        (c.sendMsg (some pJob.job.packet) post).2.1).getD false))).1 := by
  unfold executed at hexecuted
  cases packet with
  | false =>
    obtain ⟨-, rfl⟩ := LoopPoint.returned.inj hexecuted
    rfl
  | true =>
    rw [if_neg Bool.true_eq_false.mp] at hexecuted
    unfold EchoJob.execute
    cases hc : s.getConnection pJob.job.userIndex with
    | none =>
      rw [hc] at hexecuted
      obtain ⟨-, rfl⟩ := LoopPoint.returned.inj hexecuted
      simp only [if_true, hc, Bool.true_eq_false, if_false, Option.map_none, Option.getD_none]
    | some c =>
      simp only [hc] at hexecuted
      split at hexecuted
      · next hconn =>
        obtain ⟨-, rfl⟩ := LoopPoint.returned.inj hexecuted
        simp only [if_true, hc, Bool.true_eq_false, if_false, Option.map_some, Option.getD_some,
          Connection.sendMsg, hconn]
      · cases hexecuted

/-- And so it is where no other thread comes between its tests and the lock. -/
theorem execute_entered {packet : Bool} (post : Bool)
    (hexecuted : s.executed pJob packet = .entered pJob) :
    sendResultMsg ((s.conns pJob.job.userIndex).store pJob.job.packet post).2.1 =
      (pJob.job.execute true (if packet = true then some [] else none)
        (some fun i _ => sendResultMsg (((s.getConnection i).map fun c =>
          (c.sendMsg (some pJob.job.packet) post).2.1).getD false))).1 := by
  unfold executed at hexecuted
  cases packet with
  | false => cases hexecuted
  | true =>
    rw [if_neg Bool.true_eq_false.mp] at hexecuted
    unfold EchoJob.execute
    cases hc : s.getConnection pJob.job.userIndex with
    | none =>
      rw [hc] at hexecuted
      cases hexecuted
    | some c =>
      simp only [hc] at hexecuted
      split at hexecuted
      · cases hexecuted
      · next hconn =>
        have hconns : s.conns pJob.job.userIndex = c := by
          unfold getConnection at hc
          split at hc
          · exact Option.some.inj hc
          · cases hc
        rw [hconns]
        simp only [if_true, hc, Bool.true_eq_false, if_false, Option.map_some, Option.getD_some,
          Slot.sendMsg_eq_store (Bool.not_eq_false _ ▸ hconn)]

theorem holds_executed (s : JobThreads) (pJob : Request) (packet : Bool) :
    holds (s.executed pJob packet) = [pJob] := by
  unfold executed
  split
  · rfl
  · split
    · rfl
    · split <;> rfl

/-! ## What a step does -/

theorem wf_setConn {c : Connection} (hwf : ∀ j, SendStream.Wf (s.conns j)) (hc : SendStream.Wf c)
    (i : Nat) : ∀ j, SendStream.Wf ((s.setConn i c).conns j) := by
  intro j
  show SendStream.Wf (Function.update s.conns i c j)
  by_cases hj : j = i
  · subst hj
    rw [Function.update_self]
    exact hc
  · rw [Function.update_of_ne hj]
    exact hwf j

/-- A step of the workers changes the connections only; the others are a half of `OnReceive` and the
four of a job thread. -/
theorem step_cases (hstep : step s a = some s') :
    (∃ conns sessions, s' = { s with conns := conns, sessions := sessions } ∧
        (¬ IsReset a → sessions = s.sessions) ∧
        ((∀ j, SendStream.Wf (s.conns j)) → ∀ j, SendStream.Wf (conns j)) ∧ s.Posts a) ∨
      (∃ i job, a = .createJob i job ∧ i < s.size ∧ job.userIndex = i % 2 ^ 16 ∧
        s' = { s with
          creating := s.creating ++ [s.request i job]
          received := s.received ++ [s.request i job] }) ∨
      (∃ k pJob, a = .push k ∧ s.creating[k]? = some pJob ∧
        s' = { s with creating := s.creating.eraseIdx k, queue := s.queue ++ [pJob] }) ∨
      (∃ w pJob rest, a = .pop w ∧ s.hands[w]? = some .idle ∧ s.queue = pJob :: rest ∧
        s' = { s.setHand w (.running pJob) with queue := rest }) ∨
      (∃ w packet pJob, a = .execute w packet ∧ s.hands[w]? = some (.running pJob) ∧
        s' = s.setHand w (s.executed pJob packet)) ∨
      (∃ w post pJob, a = .store w post ∧ s.hands[w]? = some (.entered pJob) ∧
        s' = s.storePacket w pJob post) ∨
      ∃ w pJob eRet, a = .settle w ∧ s.hands[w]? = some (.returned pJob eRet) ∧
        s' = s.settle w pJob eRet := by
  cases a with
  | accept i =>
    simp only [step] at hstep
    split at hstep
    · refine .inl ⟨_, _, (Option.some.inj hstep).symm, fun _ => rfl, fun hwf => ?_, trivial⟩
      have hc : SendStream.Wf { s.conns i with isConnected := true } :=
        ⟨(hwf i).buffer, (hwf i).capacity⟩
      exact wf_setConn hwf hc i
    · cases hstep
  | reset i =>
    simp only [step] at hstep
    split at hstep
    · refine .inl ⟨_, _, (Option.some.inj hstep).symm, fun h => absurd trivial h, fun hwf => ?_,
        trivial⟩
      have hc : SendStream.Wf (s.conns i).reset := ⟨(hwf i).buffer.clear, (hwf i).capacity⟩
      exact wf_setConn hwf hc i
    · cases hstep
  | reSend i post =>
    refine .inl ⟨_, _, (Option.some.inj hstep).symm, fun _ => rfl, fun hwf => ?_, trivial⟩
    exact wf_setConn hwf (Slot.wf_posted (hwf i) post) i
  | doSend i post =>
    refine .inl ⟨_, _, (Option.some.inj hstep).symm, fun _ => rfl, fun hwf => ?_, trivial⟩
    exact wf_setConn hwf (Slot.wf_sendCompleted (hwf i) post) i
  | createJob i job =>
    simp only [step] at hstep
    split at hstep
    · next hi => exact .inr (.inl ⟨i, job, rfl, hi.1, hi.2, (Option.some.inj hstep).symm⟩)
    · cases hstep
  | push k =>
    simp only [step] at hstep
    split at hstep
    · cases hstep
    · next pJob hk =>
      exact .inr (.inr (.inl ⟨k, pJob, rfl, hk, (Option.some.inj hstep).symm⟩))
  | pop w =>
    simp only [step] at hstep
    split at hstep
    · next pJob rest hw hqueue =>
      exact .inr (.inr (.inr (.inl ⟨w, pJob, rest, rfl, hw, hqueue,
        (Option.some.inj hstep).symm⟩)))
    · cases hstep
  | execute w packet =>
    simp only [step] at hstep
    split at hstep
    · next pJob hw =>
      exact .inr (.inr (.inr (.inr (.inl ⟨w, packet, pJob, rfl, hw,
        (Option.some.inj hstep).symm⟩))))
    · cases hstep
  | store w post =>
    simp only [step] at hstep
    split at hstep
    · next pJob hw =>
      exact .inr (.inr (.inr (.inr (.inr (.inl ⟨w, post, pJob, rfl, hw,
        (Option.some.inj hstep).symm⟩)))))
    · cases hstep
  | settle w =>
    simp only [step] at hstep
    split at hstep
    · next pJob eRet hw =>
      exact .inr (.inr (.inr (.inr (.inr (.inr ⟨w, pJob, eRet, rfl, hw,
        (Option.some.inj hstep).symm⟩)))))
    · cases hstep

/-! ## Every request is in one place -/

theorem count_holds (h : LoopPoint) (pJob : Request) : (holds h).count pJob =
    (awaits h).count pJob + (succeeds h).count pJob + (drops h).count pJob := by
  cases h with
  | returned q eRet => cases eRet <;> simp only [holds, awaits, succeeds, drops, List.count_nil,
      Nat.zero_add, Nat.add_zero]
  | idle => rfl
  | running q => rfl
  | entered q => rfl

/-- What the requests of the kinds in the hands add up to when one hand moves. -/
theorem count_setHand (hw : s.hands[w]? = some h) (g : LoopPoint) (pJob : Request) :
    ((s.hands.set w g).flatMap awaits).count pJob +
        ((s.hands.set w g).flatMap succeeds).count pJob +
        ((s.hands.set w g).flatMap drops).count pJob + (holds h).count pJob =
      (s.hands.flatMap awaits).count pJob + (s.hands.flatMap succeeds).count pJob +
        (s.hands.flatMap drops).count pJob + (holds g).count pJob := by
  have hawaits := Counting.count_flatMap_set awaits hw g pJob
  have hsucceeds := Counting.count_flatMap_set succeeds hw g pJob
  have hdrops := Counting.count_flatMap_set drops hw g pJob
  rw [count_holds h, count_holds g]
  omega

/-- How often a request is among those that await, that are answered and that are given up. -/
def places (s : JobThreads) (pJob : Request) : Nat :=
  s.awaiting.count pJob + s.answered.count pJob + s.givenUp.count pJob

theorem count_settle (hw : s.hands[w]? = some (.returned pJob eRet)) (q : Request) :
    (s.settle w pJob eRet).places q = s.places q := by
  have hmoves := count_setHand hw .idle q
  cases eRet <;>
    simp only [settle, places, awaiting, answered, givenUp, setHand, List.count_append, holds,
      List.count_nil] at hmoves ⊢ <;>
    omega

/-- A step moves the requests from one place to another, and adds those that it receives. -/
theorem step_places (hstep : step s a = some s') (q : Request) :
    s'.places q + s.received.count q = s.places q + s'.received.count q := by
  rcases step_cases hstep with ⟨conns, sessions, rfl, -⟩ | ⟨i, job, -, -, -, rfl⟩ |
    ⟨k, pJob, -, hk, rfl⟩ | ⟨w, pJob, rest, -, hw, hqueue, rfl⟩ | ⟨w, packet, pJob, -, hw, rfl⟩ |
    ⟨w, post, pJob, -, hw, rfl⟩ | ⟨w, pJob, eRet, -, hw, rfl⟩
  · rfl
  · simp only [places, awaiting, answered, givenUp, List.count_append]
    omega
  · obtain ⟨hlt, rfl⟩ := List.getElem?_eq_some_iff.mp hk
    have hperm := (List.getElem_cons_eraseIdx_perm hlt).count_eq q
    rw [List.count_cons] at hperm
    simp only [places, awaiting, answered, givenUp, List.count_append, List.count_cons,
      List.count_nil]
    omega
  · have hmoves := count_setHand hw (.running pJob) q
    simp only [places, awaiting, answered, givenUp, setHand, List.count_append, holds, hqueue,
      List.count_nil, List.count_cons] at hmoves ⊢
    omega
  · have hmoves := count_setHand hw (s.executed pJob packet) q
    rw [holds_executed] at hmoves
    simp only [places, awaiting, answered, givenUp, setHand, List.count_append, holds] at hmoves ⊢
    omega
  · have hmoves := count_setHand hw (.returned pJob (sendResultMsg
      ((s.conns pJob.job.userIndex).store pJob.job.packet post).2.1)) q
    simp only [storePacket, places, awaiting, answered, givenUp, setHand, setConn,
      List.count_append, holds] at hmoves ⊢
    omega
  · rw [count_settle hw]
    cases eRet <;> rfl

/-- A step receives a request or none. -/
theorem step_received (hstep : step s a = some s') :
    s'.size = s.size ∧ (s'.received = s.received ∨
      ∃ i job, i < s.size ∧ job.userIndex = i % 2 ^ 16 ∧
        s'.received = s.received ++ [s.request i job]) := by
  rcases step_cases hstep with ⟨conns, sessions, rfl, -⟩ | ⟨i, job, -, hi, hjob, rfl⟩ |
    ⟨k, pJob, -, hk, rfl⟩ | ⟨w, pJob, rest, -, hw, hqueue, rfl⟩ | ⟨w, packet, pJob, -, hw, rfl⟩ |
    ⟨w, post, pJob, -, hw, rfl⟩ | ⟨w, pJob, eRet, -, hw, rfl⟩
  · exact ⟨rfl, .inl rfl⟩
  · exact ⟨rfl, .inr ⟨i, job, hi, hjob, rfl⟩⟩
  · exact ⟨rfl, .inl rfl⟩
  · exact ⟨rfl, .inl rfl⟩
  · exact ⟨rfl, .inl rfl⟩
  · exact ⟨rfl, .inl rfl⟩
  · cases eRet <;> exact ⟨rfl, .inl rfl⟩

/-- Every request that has been received is in one of the places, and only one. -/
structure Kept (s : JobThreads) : Prop where
  places : ∀ pJob, s.places pJob = s.received.count pJob
  numbers : s.received.map Request.place = List.range s.received.length

theorem kept_init (n threads : Nat) : Kept (init n threads) where
  places pJob := by
    have hidle : ∀ f : LoopPoint → List Request, f .idle = [] →
        (List.replicate threads LoopPoint.idle).flatMap f = [] := by
      intro f hf
      rw [List.flatMap_eq_nil_iff]
      intro x hx
      rw [List.eq_of_mem_replicate hx, hf]
    simp only [JobThreads.places, awaiting, answered, givenUp, init, hidle awaits rfl,
      hidle succeeds rfl, hidle drops rfl, List.append_nil, List.count_nil]
  numbers := rfl

theorem Kept.nodup (hkept : s.Kept) : s.received.Nodup := by
  apply List.Nodup.of_map Request.place
  rw [hkept.numbers]
  exact List.nodup_range

theorem kept_step (hkept : s.Kept) (hstep : step s a = some s') : s'.Kept where
  places pJob := by
    have hplaces := step_places hstep pJob
    have hbefore := hkept.places pJob
    omega
  numbers := by
    obtain ⟨-, hsame | ⟨i, job, -, -, hmore⟩⟩ := step_received hstep
    · rw [hsame]
      exact hkept.numbers
    · rw [hmore, List.map_append, hkept.numbers, List.length_append, List.length_singleton,
        List.range_succ]
      rfl

theorem kept_run (hrun : run step (init n threads) acts = some s) : s.Kept :=
  run_stable (fun _ _ _ hkept hstep => kept_step hkept hstep) (kept_init n threads) hrun

/-! ## The packets in the send buffers -/

/-- Where a post succeeds on an idle connection, `SendMsg` returns whether it has stored the
packet. -/
theorem store_ret {c : Connection} {p : PacketData} {post : Bool}
    (hpost : enqueues c p = true → c.sendLen = 0 → post = true) :
    (c.store p post).2.1 = enqueues c p := by
  unfold enqueues at hpost ⊢
  simp only [Connection.store]
  split
  · next hfull => exact hfull.symm
  · next hok =>
    have hok := Bool.not_eq_false _ ▸ hok
    split
    · next hlen =>
      rw [hok]
      exact hpost hok hlen
    · exact hok.symm

/-- Otherwise it returns false, and the packet is there. -/
theorem store_failed {c : Connection} {p : PacketData} (hok : enqueues c p = true)
    (hlen : c.sendLen = 0) : (c.store p false).2.1 = false := by
  unfold enqueues at hok
  simp only [Connection.store, hok, Bool.true_eq_false, if_false, hlen, if_true]
  rfl

theorem succeeds_executed (s : JobThreads) (pJob : Request) (packet : Bool) :
    succeeds (s.executed pJob packet) = [] := by
  unfold executed
  split
  · rfl
  · split
    · rfl
    · split <;> rfl

/-- What `store` adds to the answered requests and to the packets stored. -/
theorem count_store (hw : s.hands[w]? = some (.entered pJob)) (post : Bool) (q : Request) :
    (s.storePacket w pJob post).answered.count q = s.answered.count q +
        (if ((s.conns pJob.job.userIndex).store pJob.job.packet post).2.1 = true then
          [pJob].count q else 0) ∧
      (s.storePacket w pJob post).replies.count q = s.replies.count q +
        (if enqueues (s.conns pJob.job.userIndex) pJob.job.packet = true then
          [pJob].count q else 0) := by
  constructor
  · have hmoves := Counting.count_flatMap_set succeeds hw (.returned pJob (sendResultMsg
      ((s.conns pJob.job.userIndex).store pJob.job.packet post).2.1)) q
    simp only [storePacket, answered, setHand, setConn, List.count_append]
    cases hret : ((s.conns pJob.job.userIndex).store pJob.job.packet post).2.1 with
    | false =>
      simp only [hret, sendResultMsg, succeeds, Bool.false_eq_true, if_false, List.count_nil]
        at hmoves ⊢
      omega
    | true =>
      simp only [hret, sendResultMsg, succeeds, if_true, List.count_nil] at hmoves ⊢
      omega
  · simp only [storePacket, replies]
    split
    · rw [List.map_append, List.count_append]
      rfl
    · rfl

/-- The other steps store nothing and answer nothing. -/
theorem step_replies (hstep : step s a = some s') (ha : ∀ w post, a ≠ .store w post)
    (q : Request) :
    s'.replies = s.replies ∧ s'.answered.count q = s.answered.count q := by
  rcases step_cases hstep with ⟨conns, sessions, rfl, -⟩ | ⟨i, job, -, -, -, rfl⟩ |
    ⟨k, pJob, -, hk, rfl⟩ | ⟨w, pJob, rest, -, hw, hqueue, rfl⟩ | ⟨w, packet, pJob, -, hw, rfl⟩ |
    ⟨w, post, pJob, rfl, -, -⟩ | ⟨w, pJob, eRet, -, hw, rfl⟩
  · exact ⟨rfl, rfl⟩
  · exact ⟨rfl, rfl⟩
  · exact ⟨rfl, rfl⟩
  · have hmoves := Counting.count_flatMap_set succeeds hw (.running pJob) q
    refine ⟨rfl, ?_⟩
    simp only [answered, setHand, List.count_append, succeeds, List.count_nil] at hmoves ⊢
    omega
  · have hmoves := Counting.count_flatMap_set succeeds hw (s.executed pJob packet) q
    rw [succeeds_executed] at hmoves
    refine ⟨rfl, ?_⟩
    simp only [answered, setHand, List.count_append, succeeds, List.count_nil] at hmoves ⊢
    omega
  · exact absurd rfl (ha w post)
  · have hmoves := Counting.count_flatMap_set succeeds hw .idle q
    cases eRet <;>
      simp only [settle, replies, answered, setHand, List.count_append, succeeds, List.count_nil]
        at hmoves ⊢ <;>
      exact ⟨trivial, by omega⟩

theorem storedOnce_step (hstored : s.StoredOnce) (hposts : s.Posts a)
    (hstep : step s a = some s') : s'.StoredOnce := by
  intro q
  have hbefore := hstored q
  by_cases ha : ∃ w post, a = .store w post
  · obtain ⟨w, post, rfl⟩ := ha
    simp only [step] at hstep
    split at hstep
    · next pJob hw =>
      obtain rfl := Option.some.inj hstep
      obtain ⟨hanswered, hreplies⟩ := count_store hw post q
      rw [hanswered, hreplies, hbefore, store_ret (hposts pJob hw)]
    · cases hstep
  · obtain ⟨hreplies, hanswered⟩ := step_replies hstep
      (fun w post h => ha ⟨w, post, h⟩) q
    rw [hreplies, hanswered]
    exact hbefore

/-- A post that fails on an idle connection leaves the packet of a job that will run again. -/
theorem storedOnce_broken (hstored : s.StoredOnce) (hposts : ¬ s.Posts a)
    (hstep : step s a = some s') : ¬ s'.StoredOnce := by
  intro hafter
  cases a with
  | store w post =>
    simp only [Posts, not_forall] at hposts
    obtain ⟨pJob, hw, hok, hlen, hpost⟩ := hposts
    obtain rfl := Bool.eq_false_iff.mpr hpost
    simp only [step, hw] at hstep
    obtain rfl := Option.some.inj hstep
    obtain ⟨hanswered, hreplies⟩ := count_store hw false pJob
    have hbefore := hstored pJob
    have hboth := hafter pJob
    rw [hanswered, hreplies, if_pos hok, store_failed hok hlen, List.count_singleton_self] at hboth
    simp only [Bool.false_eq_true, if_false] at hboth
    omega
  | _ => exact hposts trivial

theorem storedOnce_init (n threads : Nat) : StoredOnce (init n threads) := by
  intro pJob
  have hplaces := (kept_init n threads).places pJob
  simp only [places] at hplaces
  have hnone : (init n threads).answered.count pJob = 0 := by
    have hzero : (init n threads).received.count pJob = 0 := rfl
    omega
  rw [hnone]
  rfl

/-- However many threads there are: in every run each request awaits its execution, is answered or
is given up, and only one of these; and in every state the answered requests have their packets in
the send buffers once, and no other request has one, if and only if no post fails on an idle
connection. -/
theorem stored_once_iff (hrun : run step (init n threads) acts = some s) :
    s.Kept ∧
      (Always step StoredOnce (init n threads) acts ↔ Meets step Posts (init n threads) acts) :=
  ⟨kept_run hrun, always_iff_meets (fun _ => id)
    (fun _ _ _ hstored hposts hstep => storedOnce_step hstored hposts hstep)
    (fun _ _ _ hstored hposts hstep => storedOnce_broken hstored hposts hstep)
    (storedOnce_init n threads) hrun⟩

/-- A post that fails, and the same job again: one request, and its packet twice. -/
def failedPost : List JobAct :=
  [.accept 0, .createJob 0 (EchoJob.new 0 7), .push 0, .pop 1, .execute 1 true, .store 1 false,
    .settle 1, .pop 0, .execute 0 true, .store 0 true]

theorem stored_once_iff_failedPost : ∃ s, run step (init 1 2) failedPost = some s ∧
    s.received.length = 1 ∧ s.replies.length = 2 ∧
    ¬ Always step StoredOnce (init 1 2) failedPost := by
  have hrun : (run step (init 1 2) failedPost).map
      (fun s => (s.received.length, s.replies.length)) = some (1, 2) := by decide +kernel
  obtain ⟨s, hs, hlengths⟩ := Option.map_eq_some_iff.mp hrun
  obtain ⟨hreceived, hreplies⟩ := Prod.mk.inj hlengths
  refine ⟨s, hs, hreceived, hreplies, ?_⟩
  rw [(stored_once_iff hs).2]
  decide +kernel

end JobThreads

end IOCPServer
