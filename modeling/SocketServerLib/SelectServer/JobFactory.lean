import SocketServerLib.RacingGameServer.Define

/-
  `JobFactory::CreateJob` of the select server.

  `createFuncs` has the one entry `ECHO`; it is indexed with the type the client has sent, and
  `createJob` is `none` where that lies outside the vector.
-/
namespace SelectServer
open RacingGameServer (Bytes toInt32 readU32)

def sizeofReqHeader : Nat := 12

/-- `sizeof(EchoParameter)`. -/
def sizeofEchoParameter : Nat := 4 + 80

structure EchoJob where
  socket : Nat
  reqNo : Nat
  param : Bytes
  param_length : param.length = sizeofEchoParameter

/-- `EchoJob::Parse` of a job just constructed. -/
def EchoJob.parse (clientSocket_ uReqNo_ : Nat) (sv_ : Bytes) : Option EchoJob :=
  if h : sv_.length = sizeofEchoParameter then
    some { socket := clientSocket_, reqNo := uReqNo_, param := sv_, param_length := h }
  else none

/-- `none` is an index outside `createFuncs`, `some none` a null pointer. -/
def createJob (clientSocket_ : Nat) (sv_ : Bytes) : Option (Option EchoJob) :=
  if sv_.length < sizeofReqHeader then some none
  else
    let reqType := toInt32 (readU32 sv_ 4)
    let reqNo := readU32 sv_ 8
    if reqType ≠ 0 then none
    else some (EchoJob.parse clientSocket_ reqNo (sv_.drop sizeofReqHeader))

end SelectServer
