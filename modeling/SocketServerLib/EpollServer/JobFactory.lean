import SocketServerLib.EpollServer.JobThread

/-
  `JobFactory::CreateJob` of the epoll server: the message of a client becomes a job that
  answers to its descriptor.

  `createFuncs` has the one entry `ECHO`, and it is set.
-/
namespace EpollServer
open RacingGameServer

def sizeofReqHeader : Nat := 12

/-- `ReqType::LAST`, which is `ECHO`. -/
def reqTypeLast : Int := 0

/-- A job that answers to `socket`. -/
structure Job where
  socket : Nat
  echo : EchoJob

/-- `EchoJob::Parse` of a job with the request number. -/
def EchoJob.parse (reqNo_ : Nat) (sv_ : Bytes) : Option EchoJob :=
  if h : sv_.length = sizeofEchoParameter then
    some { reqNo := reqNo_, param := sv_, param_length := h }
  else none

def createJob (fd_ : Nat) (sv_ : Bytes) : Option Job :=
  if sv_.length < sizeofReqHeader then none
  else
    let reqType := toInt32 (readU32 sv_ 4)
    let reqNo := readU32 sv_ 8
    if reqType > reqTypeLast ∨ reqType < 0 then none
    else
      (EchoJob.parse reqNo (sv_.drop sizeofReqHeader)).map fun job =>
        { socket := fd_, echo := job }

/-- A whole parameter is taken as it is. -/
theorem EchoJob.parse_whole (reqNo_ : Nat) {sv_ : Bytes} (h : sv_.length = sizeofEchoParameter) :
    EchoJob.parse reqNo_ sv_ = some { reqNo := reqNo_, param := sv_, param_length := h } :=
  dif_pos h

theorem EchoJob.packet_eq (job : EchoJob) :
    job.packet = leEncode 4 96 ++ leEncode 4 0 ++ leEncode 4 job.reqNo ++ job.param := by
  rw [EchoJob.packet, initPacket, job.param_length]
  rfl

/-- A job answers to the descriptor its message came from. -/
theorem createJob_socket {fd_ : Nat} {sv_ : Bytes} {job : Job} (h : createJob fd_ sv_ = some job) :
    job.socket = fd_ := by
  simp only [createJob] at h
  split at h
  · cases h
  · split at h
    · cases h
    · obtain ⟨e, -, rfl⟩ := Option.map_eq_some_iff.mp h
      rfl

end EpollServer
