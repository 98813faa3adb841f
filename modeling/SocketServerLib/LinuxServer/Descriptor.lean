import SocketServerLib.LinuxServer.JobThread

/-
  The descriptor that a response of the blocking Linux server is written to, from `accept()`
  to `SendMsg`.

  `OnReceive` has the descriptor as `int`, `CreateJob` and the entries of `createFuncs` take a
  `uint16_t`, the constructor of `Job` takes a `uint32_t` and keeps a `uint16_t`, and the way
  back is `uint32_t` up to the `int` of `SendMsg`. A job is kept with the view it was made from
  and the descriptor this came on, and `sent` lists the calls of `SendMsg` with the job that has
  made them; both are ghosts.

  What is proved:
    1. `sendCall_iff` — a job sends to the descriptor its request came on, if and only if that
       is less than 2^16.
    2. `responses_to_origin_iff` — so does every `Execute` of every run.
    3. `answer_strays` — a client on descriptor 65541 is answered on descriptor 5, twice.

  What is assumed: `GameServer::Start` has run, so that there is a `SendMsgFunc`; a push to
  `m_JobQueue` and a pop are one step each, though no lock keeps them apart; the type of a request
  is an entry of `createFuncs`.
-/
namespace LinuxServer
open RacingGameServer (Bytes leEncode readU32 toInt32)
open LabelledRun

/-- An `int` that is passed for a `uint16_t`. -/
def toUInt16 (n : Int) : Nat := (n % 2 ^ 16).toNat

/-- A call of `SocketServer::SendMsg`. -/
structure SendCall where
  nClientIndex : Int
  packet : Bytes
  deriving DecidableEq

/-- The call that `Execute` makes, through `SendResultMsg` and `SendMsgFunc`. -/
def EchoJob.sendCall (job : EchoJob) : SendCall :=
  { nClientIndex := toInt32 (job.userIndex % 2 ^ 32), packet := job.packet }

/-- A job, and what it was made from. -/
structure Request where
  nClientIndex : Int
  sv : Bytes
  job : EchoJob

structure Server where
  jobQueue : List Request
  running : Option Request
  sent : List (Request × SendCall)

/-- `receive` is `OnReceive`, `execute` is `Execute` with the answer of `SendMsg`. -/
inductive ServerAct where
  | receive (nClientIndex_ : Int) (sv_ : Bytes) (allocated : Bool)
  | take
  | execute (bRet : Bool)

namespace Server

def init : Server := { jobQueue := [], running := none, sent := [] }

/-- What `accept()` may return for a client. -/
def Accepted (fd : Int) : Prop := 0 ≤ fd ∧ fd < 2 ^ 31

instance (fd : Int) : Decidable (Accepted fd) := inferInstanceAs (Decidable (_ ∧ _))

def step (s : Server) : ServerAct → Option Server
  | .receive nClientIndex_ sv_ allocated =>
    if Accepted nClientIndex_ then
      match createJob (toUInt16 nClientIndex_) sv_ allocated with
      | none => none
      | some none => some s
      | some (some job) =>
        some { s with jobQueue := s.jobQueue ++ [⟨nClientIndex_, sv_, job⟩] }
    else none
  | .take =>
    match s.running, s.jobQueue with
    | none, r :: jobQueue => some { s with jobQueue := jobQueue, running := some r }
    | _, _ => none
  | .execute bRet =>
    match s.running with
    | none => none
    | some r =>
      some
        { jobQueue :=
            if requeues (sendResultMsg bRet) = true then s.jobQueue ++ [r] else s.jobQueue
          running := none
          sent := s.sent ++ [(r, r.job.sendCall)] }

end Server

/-- The job of a request is the one that `CreateJob` makes of it. -/
structure Request.Made (r : Request) : Prop where
  accepted : Server.Accepted r.nClientIndex
  created : createJob (toUInt16 r.nClientIndex) r.sv true = some (some r.job)

/-- The call goes back to where the request came from. -/
def Returns (c : Request × SendCall) : Prop := c.2.nClientIndex = c.1.nClientIndex

instance : DecidablePred Returns := fun _ => inferInstanceAs (Decidable (_ = _))

/-! ## One job -/

theorem toUInt16_lt (n : Int) : toUInt16 n < 2 ^ 16 := by
  unfold toUInt16
  omega

/-- `Parse` leaves the index alone. -/
theorem EchoJob.parse_userIndex {job job' : EchoJob} {param_ : Bytes}
    (h : job.parse param_ = some job') : job'.userIndex = job.userIndex := by
  unfold EchoJob.parse at h
  split at h
  · cases h
  · rw [← Option.some.inj h]

/-- The job has the last 16 bits of what it is made for. -/
theorem createJob_userIndex {u : Nat} {req_ : Bytes} {allocated : Bool} {job : EchoJob}
    (h : createJob u req_ allocated = some (some job)) :
    job.userIndex = u % 2 ^ 16 ∧ allocated = true := by
  unfold createJob at h
  split at h
  · cases h
  · simp only at h
    split at h
    · cases h
    split at h
    · cases h
    · next hallocated =>
      have hparse := EchoJob.parse_userIndex (Option.some.inj h)
      exact ⟨hparse, by simpa using hallocated⟩

/-- An index of 16 bits comes through `uint32_t` and `int` as it is. -/
theorem sendCall_nClientIndex {job : EchoJob} (h : job.userIndex < 2 ^ 16) :
    job.sendCall.nClientIndex = job.userIndex := by
  simp only [EchoJob.sendCall, toInt32]
  rw [if_pos (by omega), Nat.mod_eq_of_lt (by omega)]

/-- A job sends to the descriptor its request came on, if and only if that fits 16 bits. -/
theorem sendCall_iff {r : Request} (h : r.Made) :
    r.job.sendCall.nClientIndex = r.nClientIndex ↔ r.nClientIndex < 2 ^ 16 := by
  have hlt := toUInt16_lt r.nClientIndex
  have hindex : r.job.userIndex = toUInt16 r.nClientIndex := by
    rw [(createJob_userIndex h.created).1, Nat.mod_eq_of_lt hlt]
  obtain ⟨hnonneg, -⟩ := h.accepted
  rw [sendCall_nClientIndex (hindex ▸ hlt), hindex]
  unfold toUInt16
  omega

/-! ## Runs -/

namespace Server

/-- Every job in the server is the one made of its request, and so is every job that has
sent; and what it has sent is what `Execute` sends. -/
structure Honest (s : Server) : Prop where
  queued : ∀ r ∈ s.jobQueue, r.Made
  running : ∀ r ∈ s.running, r.Made
  sent : ∀ c ∈ s.sent, c.1.Made ∧ c.2 = c.1.job.sendCall

theorem honest_init : Honest init where
  queued r hr := by cases hr
  running r hr := by cases hr
  sent c hc := by cases hc

variable {s s' : Server} {a : ServerAct}

/-- What a step can do. -/
theorem step_cases (h : step s a = some s') :
    (∃ r, r.Made ∧ s' = { s with jobQueue := s.jobQueue ++ [r] }) ∨ s' = s ∨
    (∃ r jobQueue, s.jobQueue = r :: jobQueue ∧
      s' = { s with jobQueue := jobQueue, running := some r }) ∨
    ∃ r jobQueue, s.running = some r ∧ (jobQueue = s.jobQueue ++ [r] ∨ jobQueue = s.jobQueue) ∧
      s' = { jobQueue := jobQueue, running := none, sent := s.sent ++ [(r, r.job.sendCall)] } := by
  cases a with
  | receive nClientIndex_ sv_ allocated =>
    simp only [step] at h
    split at h
    · next hfd =>
      split at h
      · cases h
      · exact .inr (.inl (Option.some.inj h).symm)
      · next job hjob =>
        obtain rfl : allocated = true := (createJob_userIndex hjob).2
        exact .inl ⟨_, ⟨hfd, hjob⟩, (Option.some.inj h).symm⟩
    · cases h
  | take =>
    simp only [step] at h
    split at h
    · next r jobQueue _ hqueue =>
      exact .inr (.inr (.inl ⟨r, jobQueue, hqueue, (Option.some.inj h).symm⟩))
    · cases h
  | execute bRet =>
    simp only [step] at h
    split at h
    · cases h
    · next r hr =>
      refine .inr (.inr (.inr ⟨r, _, hr, ?_, (Option.some.inj h).symm⟩))
      split
      · exact .inl rfl
      · exact .inr rfl

/-- Jobs move, and are not changed; what is sent is sent by a job. -/
theorem step_honest (hs : Honest s) (h : step s a = some s') : Honest s' := by
  have happend : ∀ {r : Request}, r.Made → ∀ r' ∈ s.jobQueue ++ [r], r'.Made := by
    intro r hr r' hr'
    rcases List.mem_append.mp hr' with hr' | hr'
    · exact hs.queued r' hr'
    · exact List.mem_singleton.mp hr' ▸ hr
  rcases step_cases h with ⟨r, hr, rfl⟩ | rfl | ⟨r, jobQueue, hqueue, rfl⟩ |
    ⟨r, jobQueue, hrun, hqueue, rfl⟩
  · exact ⟨happend hr, hs.running, hs.sent⟩
  · exact hs
  · have hqueued := hs.queued
    rw [hqueue] at hqueued
    obtain ⟨hr, hrest⟩ := List.forall_mem_cons.mp hqueued
    exact ⟨hrest, fun r' hr' => Option.mem_some_iff.mp hr' ▸ hr, hs.sent⟩
  · have hr : r.Made := hs.running r hrun
    refine ⟨?_, fun r' hr' => (by cases hr'), ?_⟩
    · rcases hqueue with rfl | rfl
      · exact happend hr
      · exact hs.queued
    · intro c hc
      rcases List.mem_append.mp hc with hc | hc
      · exact hs.sent c hc
      · obtain rfl := List.mem_singleton.mp hc
        exact ⟨hr, rfl⟩

/-- In every run every `SendMsg` is called for a request that has been received, and with the
descriptor of that request if and only if this is less than 2^16. -/
theorem responses_to_origin_iff {acts : List ServerAct} (hr : run step init acts = some s) :
    ∀ c ∈ s.sent, c.1.Made ∧ (Returns c ↔ c.1.nClientIndex < 2 ^ 16) := by
  intro c hc
  have hs : Honest s := run_stable (fun s a s' => step_honest) honest_init hr
  obtain ⟨hmade, hcall⟩ := hs.sent c hc
  refine ⟨hmade, ?_⟩
  rw [Returns, hcall]
  exact sendCall_iff hmade

/-- An echo request without a payload. -/
def echoReq : Bytes := leEncode 4 12 ++ leEncode 4 0 ++ leEncode 4 7

/-- A client on descriptor `fd`, whose job cannot be sent at once. -/
def retried (fd : Int) : List ServerAct :=
  [.receive fd echoReq true, .take, .execute false, .take, .execute true]

theorem retried_responses_to_origin :
    ∃ s, run step init (retried 65535) = some s ∧
      ∀ c ∈ s.sent, c.1.Made ∧ (Returns c ↔ c.1.nClientIndex < 2 ^ 16) := by
  have hsome : (run step init (retried 65535)).isSome = true := by decide +kernel
  obtain ⟨s, hr⟩ := Option.isSome_iff_exists.mp hsome
  exact ⟨s, hr, responses_to_origin_iff hr⟩

/-- The response to the client on descriptor 65541 goes to descriptor 5, at the first attempt
and at the second. -/
theorem answer_strays :
    (run step init (retried 65541)).map (fun s => s.sent.map fun c =>
        (c.1.nClientIndex, c.2.nClientIndex, decide (Returns c))) =
      some [(65541, 5, false), (65541, 5, false)] := by
  decide +kernel

end Server

end LinuxServer
