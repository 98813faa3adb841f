import SocketServerLib.EpollServer.JobFactory
import SocketServerLib.IOCPServer.Job

/-
  The echo of the test client through the IOCP and the epoll server.

  Objects are copied byte by byte: `bytes` is the memory of an object, `ofBytes` the object
  that the memory holds. `request` is what `main` sends, `readBack` what it reads of the
  response. The two `respond` are a server's way from the message to the packet that is
  given to `SendMsgFunc`.

  What is proved:
    1. `respond_frame` — for each server, the response of a well-formed echo request.
    2. `echo_round_trip` — both servers answer every request of the client with the same
       96 bytes, and the client reads its own number and parameter in them.

  What is assumed: client and servers are built with the same layout, and are little-endian.
-/
namespace TestClient
open RacingGameServer (Bytes leEncode leEncode_length toInt32 readU32 readU32_leEncode)

def maxEchoSize : Nat := 80
def sizeofReqHeader : Nat := 12
def sizeofInfoHeader : Nat := 12
def sizeofEchoParameter : Nat := 4 + maxEchoSize

/-- The size of `buf` in `main`. -/
def sizeofBuf : Nat := 2048

/-- `ReqType::ECHO`. -/
def reqTypeEcho : Int := 0

structure ReqHeader where
  msgSize : UInt32
  reqType : Int
  reqNo : UInt32

structure InfoHeader where
  msgSize : UInt32
  resCode : Int
  reqNo : UInt32
  deriving DecidableEq

@[ext] structure EchoParameter where
  payloadSize : UInt32
  payload : Bytes
  payload_length : payload.length = maxEchoSize

def ReqHeader.bytes (header : ReqHeader) : Bytes :=
  leEncode 4 header.msgSize.toNat ++ leEncode 4 (header.reqType % 2 ^ 32).toNat ++
    leEncode 4 header.reqNo.toNat

def InfoHeader.ofBytes (b : Bytes) : InfoHeader :=
  { msgSize := .ofNat (readU32 b 0), resCode := toInt32 (readU32 b 4)
    reqNo := .ofNat (readU32 b 8) }

namespace EchoParameter

def bytes (param : EchoParameter) : Bytes := leEncode 4 param.payloadSize.toNat ++ param.payload

/-- `b` is copied over a parameter that is all zeros. -/
def ofBytes (b : Bytes) : EchoParameter :=
  let filled := b ++ List.replicate sizeofEchoParameter 0
  { payloadSize := .ofNat (readU32 filled 0)
    payload := (filled.drop 4).take maxEchoSize
    payload_length := by
      rw [List.length_take, List.length_drop, List.length_append, List.length_replicate,
        sizeofEchoParameter]
      omega }

end EchoParameter

/-- `CreateMsg` with a buffer of `maxBufferLen_` bytes. -/
def createMsg (maxBufferLen_ : Nat) (header_ : ReqHeader) (param_ : EchoParameter) :
    Option Bytes :=
  if sizeofReqHeader + sizeofEchoParameter > maxBufferLen_ then none
  else
    some (header_.bytes ++ param_.bytes ++
      List.replicate (maxBufferLen_ - (sizeofReqHeader + sizeofEchoParameter)) 0)

/-- The header of `main`, with the number of the request. -/
def echoHeader (reqNo : UInt32) : ReqHeader :=
  { msgSize := .ofNat (sizeofReqHeader + sizeofEchoParameter), reqType := reqTypeEcho
    reqNo := reqNo }

/-- What `main` gives to `send`. -/
def request (reqNo : UInt32) (param : EchoParameter) : Bytes :=
  let header := echoHeader reqNo
  let buf := header.bytes ++ param.bytes ++
    List.replicate (sizeofBuf - (sizeofReqHeader + sizeofEchoParameter)) 0
  buf.take header.msgSize.toNat

/-- What the client reads of the bytes that `recv` has brought. -/
def readBack (buf : Bytes) : InfoHeader × EchoParameter :=
  (InfoHeader.ofBytes buf, EchoParameter.ofBytes (buf.drop sizeofInfoHeader))

/-! ## The layouts -/

variable {reqNo : UInt32} {param : EchoParameter}

theorem bytes_length (param : EchoParameter) : param.bytes.length = 84 := by
  rw [EchoParameter.bytes, List.length_append, leEncode_length, param.payload_length, maxEchoSize]

theorem ofBytes_bytes (param : EchoParameter) : EchoParameter.ofBytes param.bytes = param := by
  have hpayload : param.payload.length = maxEchoSize := param.payload_length
  ext1
  · show UInt32.ofNat (readU32 (param.bytes ++ _) 0) = _
    rw [EchoParameter.bytes, List.append_assoc]
    have hnil : ([] : Bytes).length = 0 := rfl
    have hread := readU32_leEncode hnil param.payloadSize.toNat_lt
      (param.payload ++ List.replicate sizeofEchoParameter 0)
    rw [List.nil_append] at hread
    rw [hread, UInt32.ofNat_toNat]
  · show ((param.bytes ++ _).drop 4).take maxEchoSize = _
    rw [EchoParameter.bytes, List.append_assoc, List.drop_left' (leEncode_length 4 _),
      List.take_left' hpayload]

/-- The message of the echo: three numbers and the parameter. -/
theorem request_eq (reqNo : UInt32) (param : EchoParameter) :
    request reqNo param =
      leEncode 4 96 ++ leEncode 4 0 ++ leEncode 4 reqNo.toNat ++ param.bytes := by
  have hlen : ((echoHeader reqNo).bytes ++ param.bytes).length = 96 := by
    simp only [ReqHeader.bytes, List.length_append, leEncode_length, bytes_length]
  rw [request]
  exact List.take_left' hlen

/-- `CreateMsg`, which `main` does not call, builds the same message, if the buffer is large enough
for it. -/
theorem createMsg_request {maxBufferLen_ : Nat} (h : 96 ≤ maxBufferLen_) :
    ∃ buf, createMsg maxBufferLen_ (echoHeader reqNo) param = some buf ∧
      buf.take 96 = request reqNo param := by
  have hlen : ((echoHeader reqNo).bytes ++ param.bytes).length = 96 := by
    simp only [ReqHeader.bytes, List.length_append, leEncode_length, bytes_length]
  have hfit : ¬ sizeofReqHeader + sizeofEchoParameter > maxBufferLen_ := by
    simp only [sizeofReqHeader, sizeofEchoParameter, maxEchoSize]
    omega
  refine ⟨_, if_neg hfit, ?_⟩
  rw [List.take_left' hlen, request_eq]
  rfl

/-- A frame of three numbers and a payload. -/
structure HasFields (frame : Bytes) (a b c : Nat) (payload : Bytes) : Prop where
  length : frame.length = 12 + payload.length
  first : readU32 frame 0 = a
  second : readU32 frame 4 = b
  third : readU32 frame 8 = c
  payload : frame.drop 12 = payload

theorem hasFields {a b c : Nat} (ha : a < 2 ^ 32) (hb : b < 2 ^ 32) (hc : c < 2 ^ 32)
    (payload : Bytes) :
    HasFields (leEncode 4 a ++ leEncode 4 b ++ leEncode 4 c ++ payload) a b c payload := by
  have hlen : (leEncode 4 a ++ leEncode 4 b).length = 8 := by
    simp only [List.length_append, leEncode_length]
  constructor
  · simp only [List.length_append, leEncode_length]
  · rw [List.append_assoc, List.append_assoc]
    have hnil : ([] : Bytes).length = 0 := rfl
    exact readU32_leEncode hnil ha _
  · rw [List.append_assoc, List.append_assoc]
    exact readU32_leEncode (leEncode_length 4 a) hb _
  · rw [List.append_assoc]
    exact readU32_leEncode hlen hc _
  · apply List.drop_left'
    simp only [List.length_append, leEncode_length]

/-- The client reads the fields of a frame whose payload is a parameter. -/
theorem readBack_eq {frame : Bytes} {a b c : Nat} (h : HasFields frame a b c param.bytes) :
    readBack frame = ({ msgSize := .ofNat a, resCode := toInt32 b, reqNo := .ofNat c }, param) := by
  rw [readBack, InfoHeader.ofBytes, h.first, h.second, h.third, sizeofInfoHeader, h.payload,
    ofBytes_bytes]

end TestClient

/-! ## The servers -/

namespace IOCPServer
open RacingGameServer (Bytes leEncode toInt32)
open TestClient (HasFields)

/-- From a message to the call of `SendMsgFunc`, where the pools give out what they are asked
for: `packet` is what the packet held before. -/
def respond (userindex_ : Nat) (req_ packet : Bytes) (sendMsgFunc : Nat → Bytes → InfoCode) :
    Option (Nat × Bytes) :=
  match createJob userindex_ req_ true with
  | some (some job) => (job.execute true (some packet) (some sendMsgFunc)).2
  | _ => none

/-- The response to an echo request with a whole parameter. -/
theorem respond_frame {frame payload : Bytes} {a reqNo : Nat}
    (h : HasFields frame a 0 reqNo payload) (hlen : payload.length = 84) (userindex_ : Nat)
    (packet : Bytes) (sendMsgFunc : Nat → Bytes → InfoCode) :
    respond userindex_ frame packet sendMsgFunc =
      some (userindex_, leEncode 4 96 ++ leEncode 4 0 ++ leEncode 4 reqNo ++ payload) := by
  have hlong : ¬ frame.length < sizeofReqHeader := by
    rw [h.length, sizeofReqHeader]
    omega
  have hjob : createJob userindex_ frame true = some ((EchoJob.new userindex_ reqNo).parse
      payload) := by
    rw [createJob, if_neg hlong, h.second, h.third, sizeofReqHeader, h.payload]
    rfl
  rw [respond, hjob, EchoJob.parse_whole _ hlen]
  exact EchoJob.execute_sends _ packet sendMsgFunc

end IOCPServer

namespace EpollServer
open RacingGameServer (Bytes leEncode toInt32)
open TestClient (HasFields)

/-- From a message to the call of `SendMsgFunc`. -/
def respond (fd_ : Nat) (sv_ : Bytes) : Option (Nat × Bytes) :=
  (createJob fd_ sv_).map fun job => (job.socket, job.echo.packet)

/-- The response to an echo request with a whole parameter. -/
theorem respond_frame {frame payload : Bytes} {a reqNo : Nat}
    (h : HasFields frame a 0 reqNo payload) (hlen : payload.length = 84) (fd_ : Nat) :
    respond fd_ frame =
      some (fd_, leEncode 4 96 ++ leEncode 4 0 ++ leEncode 4 reqNo ++ payload) := by
  have hlong : ¬ frame.length < sizeofReqHeader := by
    rw [h.length, sizeofReqHeader]
    omega
  have hjob : createJob fd_ frame =
      (EchoJob.parse reqNo payload).map fun job => { socket := fd_, echo := job } := by
    rw [createJob, if_neg hlong, h.second, h.third, sizeofReqHeader, h.payload]
    rfl
  rw [respond, hjob, EchoJob.parse_whole reqNo hlen, Option.map_some, Option.map_some,
    EchoJob.packet_eq]

end EpollServer

namespace TestClient
open RacingGameServer (Bytes)

/-- Every request of the client is answered by both servers with the same 96 bytes, in which the
client reads success, its number and its parameter. -/
theorem echo_round_trip (reqNo : UInt32) (param : EchoParameter) (userindex_ fd_ : Nat)
    (packet : Bytes) (sendMsgFunc : Nat → Bytes → IOCPServer.InfoCode) :
    (request reqNo param).length = 96 ∧ ∃ response : Bytes, response.length = 96 ∧
      IOCPServer.respond userindex_ (request reqNo param) packet sendMsgFunc =
        some (userindex_, response) ∧
      EpollServer.respond fd_ (request reqNo param) = some (fd_, response) ∧
      readBack response =
        ({ msgSize := 96, resCode := IOCPServer.InfoCode.REQ_SUCCESS.toNat, reqNo := reqNo },
          param) := by
  have hfields : HasFields (request reqNo param) 96 0 reqNo.toNat param.bytes := by
    rw [request_eq]
    exact hasFields (by decide) (by decide) reqNo.toNat_lt param.bytes
  have hlen : (request reqNo param).length = 96 := by
    rw [hfields.length, bytes_length]
  -- the code of success and that of the echo are both 0, so the response is the request
  refine ⟨hlen, request reqNo param, hlen, ?_, ?_, ?_⟩
  · rw [IOCPServer.respond_frame hfields (bytes_length param), ← request_eq]
  · rw [EpollServer.respond_frame hfields (bytes_length param), ← request_eq]
  · rw [readBack_eq hfields, UInt32.ofNat_toNat]
    rfl

end TestClient
