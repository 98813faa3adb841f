import SocketServerLib.RacingGameServer.Define

/-
  Jobs of the IOCP server: `JobFactory::CreateJob`, `EchoJob::Parse` and `EchoJob::Execute`.

  `createFuncs` has the one entry `ECHO`; it is indexed with the type the client has sent,
  and `createJob` is `none` where that lies outside the vector. A packet of the pool is the
  bytes that are in use in it, `none` where the pool gives out a null pointer.
-/
namespace IOCPServer
open RacingGameServer (Bytes leEncode toInt32 readU32)

def maxSockbuf : Nat := 4096
def packetSize : Nat := maxSockbuf * 2

def sizeofInfoHeader : Nat := 12
def sizeofReqHeader : Nat := 12

/-- `sizeof(EchoParameter)`. -/
def sizeofEchoParameter : Nat := 4 + 80

inductive InfoCode where
  | REQ_SUCCESS | REQ_FAILED | NOT_FINISHED | NULLPTR_ON_FUNCPTR | OTHER_ERR
  deriving DecidableEq, Repr

/-- `static_cast<int32_t>` of the code. -/
def InfoCode.toNat : InfoCode → Nat
  | REQ_SUCCESS => 0
  | REQ_FAILED => 1
  | NOT_FINISHED => 2
  | NULLPTR_ON_FUNCPTR => 3
  | OTHER_ERR => 4

/-- `PacketData::Init`: a packet keeps what it has if the message is too long. -/
def initPacket (packet : Bytes) (infoCode_ : InfoCode) (reqNo_ : Nat) (payload : Bytes) : Bytes :=
  if (payload.length + sizeofInfoHeader) % 2 ^ 32 > packetSize then packet
  else
    leEncode 4 ((payload.length + sizeofInfoHeader) % 2 ^ 32) ++ leEncode 4 infoCode_.toNat ++
      leEncode 4 reqNo_ ++ payload

/-- The packet of a parameter. -/
theorem initPacket_param (packet : Bytes) (infoCode_ : InfoCode) (reqNo_ : Nat) {payload : Bytes}
    (h : payload.length = sizeofEchoParameter) : initPacket packet infoCode_ reqNo_ payload =
      leEncode 4 96 ++ leEncode 4 infoCode_.toNat ++ leEncode 4 reqNo_ ++ payload := by
  rw [initPacket, h]
  rfl

structure EchoJob where
  userIndex : Nat
  reqNo : Nat
  param : Bytes
  param_length : param.length = sizeofEchoParameter

namespace EchoJob

/-- The job as the constructor leaves it. -/
def new (userindex_ reqNo_ : Nat) : EchoJob :=
  { userIndex := userindex_, reqNo := reqNo_, param := List.replicate sizeofEchoParameter 0
    param_length := List.length_replicate }

/-- A short parameter is filled up with zeros. -/
def parse (job : EchoJob) (param_ : Bytes) : Option EchoJob :=
  if h : param_.length > sizeofEchoParameter then none
  else
    some
      { job with
        param := param_ ++ List.replicate (sizeofEchoParameter - param_.length) 0
        param_length := by
          rw [List.length_append, List.length_replicate]
          omega }

/-- A whole parameter is taken as it is. -/
theorem parse_whole (job : EchoJob) {param_ : Bytes} (h : param_.length = sizeofEchoParameter) :
    job.parse param_ = some { job with param := param_, param_length := h } := by
  have hle : ¬ param_.length > sizeofEchoParameter := by omega
  have hpad : param_ ++ List.replicate (sizeofEchoParameter - param_.length) 0 = param_ := by
    rw [h, Nat.sub_self, List.replicate_zero, List.append_nil]
  rw [parse, dif_neg hle]
  simp only [hpad]

/-- What `Execute` returns, and what `SendMsgFunc` was called with. `pStDI` is whether the packet
pool can be found, `packet` what it gives out. -/
def execute (job : EchoJob) (pStDI : Bool) (packet : Option Bytes)
    (sendMsgFunc : Option (Nat → Bytes → InfoCode)) : InfoCode × Option (Nat × Bytes) :=
  if pStDI = false then (.OTHER_ERR, none)
  else
    match packet with
    | none => (.OTHER_ERR, none)
    | some pPacket =>
      let pPacket := initPacket pPacket .REQ_SUCCESS job.reqNo job.param
      match sendMsgFunc with
      | none => (.NULLPTR_ON_FUNCPTR, none)
      | some send => (send job.userIndex pPacket, some (job.userIndex, pPacket))

/-- Where the pool gives out a packet, the response is built in it and sent. -/
theorem execute_sends (job : EchoJob) (packet : Bytes) (send : Nat → Bytes → InfoCode) :
    (job.execute true (some packet) (some send)).2 =
      some (job.userIndex, leEncode 4 96 ++ leEncode 4 0 ++ leEncode 4 job.reqNo ++ job.param) := by
  have hpacket := initPacket_param packet .REQ_SUCCESS job.reqNo job.param_length
  show some (job.userIndex, initPacket packet .REQ_SUCCESS job.reqNo job.param) = _
  rw [hpacket]
  rfl

end EchoJob

/-- `none` is an index outside `createFuncs`, `some none` a null pointer; `allocated` is whether
the pool has memory for the job. -/
def createJob (userindex_ : Nat) (req_ : Bytes) (allocated : Bool) : Option (Option EchoJob) :=
  if req_.length < sizeofReqHeader then some none
  else
    let reqType := toInt32 (readU32 req_ 4)
    let reqNo := readU32 req_ 8
    if reqType ≠ 0 then none
    else if allocated = false then some none
    else some ((EchoJob.new userindex_ reqNo).parse (req_.drop sizeofReqHeader))

end IOCPServer
