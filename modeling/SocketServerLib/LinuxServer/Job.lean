import SocketServerLib.RacingGameServer.Define

/-
  Jobs of the blocking Linux server: `JobFactory::CreateJob`, `EchoJob::Parse` and the packet
  that `EchoJob::Execute` sends.

  `createFuncs` has the one entry `ECHO`; it is indexed with the type the client has sent, and
  `createJob` is `none` where that lies outside the vector.
-/
namespace LinuxServer
open RacingGameServer (Bytes leEncode leEncode_length toInt32 readU32)

def maxPacketSize : Nat := 4096

def sizeofInfoHeader : Nat := 12
def sizeofReqHeader : Nat := 12

/-- `sizeof(EchoParameter)`. -/
def sizeofEchoParameter : Nat := 4 + 80

inductive InfoCode where
  | REQ_SUCCESS | REQ_FAILED | NOT_FINISHED | NULLPTR_ON_FUNCPTR | OTHER_ERR
  deriving DecidableEq, Repr

/-- `static_cast<int32_t>` of the code. -/
def InfoCode.toNat : InfoCode → Nat
  | REQ_SUCCESS => 0
  | REQ_FAILED => 1
  | NOT_FINISHED => 2
  | NULLPTR_ON_FUNCPTR => 3
  | OTHER_ERR => 4

/-- What `PacketData::Init` leaves in a new packet: nothing, if the message is too long. -/
def initPacket (infoCode_ : InfoCode) (reqNo_ : Nat) (objData_ : Bytes) : Bytes :=
  if (objData_.length + sizeofInfoHeader) % 2 ^ 32 > maxPacketSize then []
  else
    leEncode 4 ((objData_.length + sizeofInfoHeader) % 2 ^ 32) ++ leEncode 4 infoCode_.toNat ++
      leEncode 4 reqNo_ ++ objData_

/-- `userIndex` is the descriptor of the client, as far as it fits `uint16_t`. -/
structure EchoJob where
  userIndex : Nat
  reqNo : Nat
  param : Bytes
  param_length : param.length = sizeofEchoParameter
  deriving DecidableEq

namespace EchoJob

/-- The job as the constructor leaves it. -/
def new (userindex_ reqNo_ : Nat) : EchoJob :=
  { userIndex := userindex_, reqNo := reqNo_, param := List.replicate sizeofEchoParameter 0
    param_length := List.length_replicate }

/-- A short parameter is filled up with zeros. -/
def parse (job : EchoJob) (param_ : Bytes) : Option EchoJob :=
  if h : param_.length > sizeofEchoParameter then none
  else
    some
      { job with
        param := param_ ++ List.replicate (sizeofEchoParameter - param_.length) 0
        param_length := by
          rw [List.length_append, List.length_replicate]
          omega }

/-- The packet that `Execute` sends. -/
def packet (job : EchoJob) : Bytes := initPacket .REQ_SUCCESS job.reqNo job.param

theorem packet_eq (job : EchoJob) :
    job.packet = leEncode 4 96 ++ leEncode 4 0 ++ leEncode 4 job.reqNo ++ job.param := by
  rw [packet, initPacket, job.param_length]
  rfl

theorem packet_length (job : EchoJob) : job.packet.length = 96 := by
  have hlen : job.param.length = 84 := job.param_length
  rw [packet_eq]
  simp only [List.length_append, leEncode_length, hlen]

end EchoJob

/-- `none` is an index outside `createFuncs`, `some none` a null pointer; `allocated` is whether
`new` has memory for the job. -/
def createJob (userindex_ : Nat) (req_ : Bytes) (allocated : Bool) : Option (Option EchoJob) :=
  if req_.length < sizeofReqHeader then some none
  else
    let reqType := toInt32 (readU32 req_ 4)
    let reqNo := readU32 req_ 8
    if reqType ≠ 0 then none
    else if allocated = false then some none
    else some ((EchoJob.new (userindex_ % 2 ^ 16) reqNo).parse (req_.drop sizeofReqHeader))

end LinuxServer
