import SocketServerLib.RacingGameServer.PacketData

/-
  `JobFactory::CreateJob` and the three jobs of the TCP path.

  What the outside world answers during one call is an `Answers`: whether the
  memory pool has a block, which packet the packet pool gives, which token the
  token function gives, what `sendFunc` returns. `wild` stands for whatever
  `createFuncs[reqType]` yields when `reqType` is negative, an index outside the
  vector: nothing is assumed of it.

  `origin` is a ghost, as in `PacketData`: the session on whose buffer the
  request was framed.
-/
namespace RacingGameServer

inductive JobKind where
  | EchoJob | ReqTokenJob | UDPEchoJob
  deriving DecidableEq, Repr

structure Job where
  kind : JobKind
  clientIndex : Nat
  reqNo : Nat
  param : Bytes
  packet : Option PacketData
  origin : Nat := 0
  deriving DecidableEq, Repr

/-- What the outside world answers during one call. -/
structure Answers where
  block : Bool := true
  wild : Option JobKind := none
  alloc : Option PacketData := none
  token : Nat := 0
  sent : Bool := true

/-- The protocol the job's `SendRes` hands to `sendFunc`. -/
def JobKind.protocol : JobKind → SendProtocol
  | EchoJob => .TCP
  | ReqTokenJob => .TCP
  | UDPEchoJob => .UDP

/-- `createFuncs[reqType]`, for `reqType` at most `ReqType::LAST`. -/
def createFuncs (wild : Option JobKind) (reqType : Int) : Option JobKind :=
  if reqType < 0 then wild
  else if reqType = 0 then some .EchoJob
  else if reqType = 1 then some .ReqTokenJob
  else if reqType = 2 then some .UDPEchoJob
  else none

/-- The job as its constructor leaves it. -/
def JobKind.new (k : JobKind) : Job :=
  { kind := k, clientIndex := 0, reqNo := 0, packet := none,
    param := match k with
      | .ReqTokenJob => []
      | _ => List.replicate sizeofEchoParameter 0 }

/-- `Parse` of the job's class. -/
def Job.parse (j : Job) (sv_ : Bytes) : Job × Bool :=
  match j.kind with
  | .ReqTokenJob => (j, true)
  | .EchoJob =>
    if sv_.length > sizeofEchoParameter then (j, false)
    else ({ j with param := sv_ ++ j.param.drop sv_.length }, true)
  | .UDPEchoJob =>
    -- the one class that clears `m_param` first
    if sv_.length > sizeofEchoParameter then (j, false)
    else
      ({ j with param := sv_ ++ (List.replicate sizeofEchoParameter 0).drop sv_.length }, true)

/-- `JobFactory::CreateJob`. `reqMsg` is the zero-filled `ReqMessage` the message is copied to. -/
def createJob (a : Answers) (uUserIndex_ origin : Nat) (sv : Bytes) : Option Job :=
  if sv.length < headerSize then none
  else if sv.length > sizeofReqMessage then none
  else
    let reqMsg := sv ++ List.replicate (sizeofReqMessage - sv.length) 0
    let reqType := toInt32 (readU32 reqMsg 4)
    if reqType > reqTypeLast then none
    else match createFuncs a.wild reqType with
      | none => none
      | some k =>
        -- `func()` returns null when the memory pool has no block
        if a.block = false then none
        else
          let payload := (reqMsg.drop (sizeofReqHeader + 4)).take (sv.length - sizeofReqHeader)
          match k.new.parse payload with
          | (_, false) => none
          | (j, true) =>
            some { j with clientIndex := uUserIndex_, reqNo := readU32 reqMsg 8, origin := origin }

/-- The payload a job's `Execute` puts into its response. -/
def Job.response (j : Job) (token : Nat) : Bytes :=
  match j.kind with
  | .EchoJob => j.param
  | .UDPEchoJob => j.param
  | .ReqTokenJob => leEncode 8 token

/-- `Execute` of the job's class; the last component is what goes back to the packet pool.
The three classes run the same body but for the payload. -/
def Job.execute (j : Job) (a : Answers) : Job × Bool × List PacketData :=
  match a.alloc with
  | none => (j, false, [])
  | some p =>
    match p.init .REQ_SUCCESS j.reqNo (j.response a.token) with
    | (p', false) => (j, false, [p'.clear])
    | (p', true) =>
      ({ j with packet := some { p' with origin := j.origin } }, true,
        (j.packet.map PacketData.clear).toList)

/-- `SendRes` of the job's class, `sent` being what `sendFunc` returned. `SendMsgFunc`
refuses a null packet. -/
def Job.sendRes (j : Job) (sent : Bool) : Job × Bool :=
  if sent = true ∧ j.packet.isSome then ({ j with packet := none }, true) else (j, false)

/-! ## What the jobs do -/

variable {a : Answers} {i o : Nat} {sv : Bytes} {j j' : Job}

/-- A job just created has its slot, its session and no packet. -/
theorem createJob_fresh (h : createJob a i o sv = some j) :
    j.packet = none ∧ j.clientIndex = i ∧ j.origin = o := by
  have hparse : ∀ (k : JobKind) (pl : Bytes), (k.new.parse pl).1.packet = none := by
    intro k pl
    cases k <;> simp only [JobKind.new, Job.parse] <;> (try split) <;> rfl
  simp only [createJob] at h
  -- the five ways to refuse the message, and then the parsed job
  split at h
  · cases h
  split at h
  · cases h
  split at h
  · cases h
  split at h
  · cases h
  next k _ =>
    split at h
    · cases h
    split at h
    · cases h
    next j₀ hj₀ =>
      have := hparse k ((sv ++ List.replicate (sizeofReqMessage - sv.length) 0).drop
        (sizeofReqHeader + 4) |>.take (sv.length - sizeofReqHeader))
      rw [hj₀] at this
      cases h
      exact ⟨this, rfl, rfl⟩

/-- `Parse` of the two echo jobs fills a short parameter up with zeros. -/
theorem JobKind.parse_param {k : JobKind} (hk : k ≠ .ReqTokenJob) (sv_ : Bytes) :
    k.new.parse sv_ =
      if sv_.length > sizeofEchoParameter then (k.new, false)
      else
        ({ k.new with param := sv_ ++ List.replicate (sizeofEchoParameter - sv_.length) 0 },
          true) := by
  have hdrop : ∀ n, (List.replicate sizeofEchoParameter (0 : UInt8)).drop n =
      List.replicate (sizeofEchoParameter - n) 0 := fun n => List.drop_replicate
  cases k with
  | ReqTokenJob => exact absurd rfl hk
  | EchoJob => simp only [Job.parse, JobKind.new, hdrop]
  | UDPEchoJob => simp only [Job.parse, JobKind.new, hdrop]

/-- `Execute` succeeds with a response packet, or leaves the job as it was. -/
theorem Job.execute_cases (j : Job) (a : Answers) :
    (∃ p freed, j.execute a = ({ j with packet := some p }, true, freed) ∧ p.origin = j.origin) ∨
      (∃ freed, j.execute a = (j, false, freed)) := by
  unfold Job.execute
  split
  · exact .inr ⟨_, rfl⟩
  · split
    · exact .inr ⟨_, rfl⟩
    · exact .inl ⟨_, _, rfl, rfl⟩

/-- Without a packet `Execute` does nothing. -/
theorem Job.execute_none (j : Job) (ha : a.alloc = none) : j.execute a = (j, false, []) := by
  simp [Job.execute, ha]

/-- With one, it keeps it and gives back the one it had, or gives it back. -/
theorem Job.execute_some (j : Job) {p : PacketData} (ha : a.alloc = some p) :
    (∃ p', p'.addr = p.addr ∧
      j.execute a = ({ j with packet := some p' }, true, (j.packet.map PacketData.clear).toList)) ∨
    (∃ p', p'.addr = p.addr ∧ j.execute a = (j, false, [p'])) := by
  have haddr := p.init_addr .REQ_SUCCESS j.reqNo (j.response a.token)
  simp only [Job.execute, ha]
  split
  · next p' hp' => exact .inr ⟨p'.clear, by rw [hp'] at haddr; exact haddr, rfl⟩
  · next p' hp' =>
    exact .inl ⟨{ p' with origin := j.origin }, by rw [hp'] at haddr; exact haddr, rfl⟩

/-! ## A request used in the runs of the other modules -/

/-- A `REQ_TOKEN` frame: `reqLen` 12, `reqType` 1, `reqNo` 7. -/
def tokenFrame : Bytes := [12, 0, 0, 0, 1, 0, 0, 0, 7, 0, 0, 0]

/-- The packet pool gives a fresh packet, and `sendFunc` answers `sent`. -/
def Answers.pooled (sent : Bool) : Answers := { alloc := some (.alloc 0 packetSize), sent := sent }

end RacingGameServer
