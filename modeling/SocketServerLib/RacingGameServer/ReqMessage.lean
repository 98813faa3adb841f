import SocketServerLib.RacingGameServer.Job
import SocketServerLib.Lib.ByteRange

/-
  `ReqMessage` and `CreateJob`: a request as the struct declares it, and the job it becomes.

  `CreateJob` takes the payload from behind `payloadSize`, but as many bytes as stand behind
  the header: the four bytes of `payloadSize` are counted in.

  What is proved:
    1. `createJob_of_fits` — `CreateJob` on a message that fits the struct.
    2. `createJob_echo`, `execute_param` — the job of an `ECHO` request, and its response.
    3. `decoded_iff` — an `ECHO` request is decoded if and only if its payload is at most 80
       bytes long.
    4. `whole_param_refused` — a request with a whole `EchoParameter`.

  What is assumed: the fields of the struct are little-endian and lie as declared.
-/
namespace RacingGameServer

open ByteRange

/-- A request of the type as `ReqMessage` lays it out. -/
def reqMessage (reqType reqNo : Nat) (payload : Bytes) : Bytes :=
  leEncode 4 (sizeofReqHeader + 4 + payload.length) ++ leEncode 4 reqType ++ leEncode 4 reqNo ++
    leEncode 4 payload.length ++ payload

/-- `ReqType::ECHO`. -/
def echo : Nat := 0

/-- The request becomes an `EchoJob` with its number and its payload, filled up with zeros, and
the response of that job carries the same. -/
def Decoded (a : Answers) (uUserIndex_ origin reqNo : Nat) (payload : Bytes) : Prop :=
  ∃ j, createJob a uUserIndex_ origin (reqMessage echo reqNo payload) = some j ∧
    j.kind = .EchoJob ∧ j.reqNo = reqNo ∧
    j.param = payload ++ List.replicate (sizeofEchoParameter - payload.length) 0 ∧
    ∀ a' : Answers, ∀ p ∈ a'.alloc, (j.execute a').2.1 = true ∧
      ∃ p' ∈ (j.execute a').1.packet, p'.bytes.drop sizeofInfoHeader = j.param

variable {a : Answers} {i o r : Nat} {sv payload : Bytes} {j : Job}

theorem length_reqMessage (t r : Nat) (payload : Bytes) :
    (reqMessage t r payload).length = sizeofReqHeader + 4 + payload.length := by
  simp only [reqMessage, List.length_append, leEncode_length]
  rfl

/-- What `CreateJob` does with the element of `createFuncs`. -/
def jobFrom (a : Answers) (uUserIndex_ origin : Nat) (sv_ : Bytes) (k : JobKind) : Option Job :=
  let reqMsg := sv_ ++ List.replicate (sizeofReqMessage - sv_.length) 0
  if a.block = false then none
  else
    match k.new.parse
      (slice reqMsg (sizeofReqHeader + 4) (sv_.length - sizeofReqHeader)) with
    | (_, false) => none
    | (j, true) =>
      some { j with clientIndex := uUserIndex_, reqNo := readU32 reqMsg 8, origin := origin }

/-- `CreateJob` on a message that fits the struct reads the type where it stands. -/
theorem createJob_of_fits (hmin : headerSize ≤ sv.length) (hmax : sv.length ≤ sizeofReqMessage) :
    createJob a i o sv =
      if toInt32 (readU32 sv 4) > reqTypeLast then none
      else (createFuncs a.wild (toInt32 (readU32 sv 4))).bind (jobFrom a i o sv) := by
  have hheader : headerSize = 12 := rfl
  have htype : readU32 (sv ++ List.replicate (sizeofReqMessage - sv.length) 0) 4 = readU32 sv 4 :=
    readU32_append (by omega) _
  rw [createJob, if_neg (Nat.not_lt.mpr hmin), if_neg (Nat.not_lt.mpr hmax)]
  simp only [htype]
  cases createFuncs a.wild (toInt32 (readU32 sv 4)) with
  | none => rfl
  | some k => rfl

/-- The fields of a request, where the struct has them. -/
theorem reqMessage_fields (hr : r < 2 ^ 32) {t : Nat} (ht : t < 2 ^ 32) (payload : Bytes) :
    readU32 (reqMessage t r payload) 4 = t ∧ readU32 (reqMessage t r payload) 8 = r := by
  have hsplit : reqMessage t r payload =
      leEncode 4 (sizeofReqHeader + 4 + payload.length) ++ (leEncode 4 t ++ (leEncode 4 r ++
        (leEncode 4 payload.length ++ payload))) := by
    simp only [reqMessage, List.append_assoc]
  constructor
  · rw [hsplit]
    exact readU32_leEncode (leEncode_length 4 _) ht _
  · rw [hsplit, ← List.append_assoc]
    exact readU32_leEncode (by simp only [List.length_append, leEncode_length]) hr _

/-- The view of the payload runs four bytes past it, into the zeros behind the message. -/
theorem payload_view (t r : Nat) (hlen : payload.length ≤ sizeofEchoParameter) :
    slice (reqMessage t r payload ++
        List.replicate (sizeofReqMessage - (reqMessage t r payload).length) 0)
      (sizeofReqHeader + 4) ((reqMessage t r payload).length - sizeofReqHeader) =
      payload ++ List.replicate 4 0 := by
  have hparam : sizeofEchoParameter = 84 := rfl
  have hheader : sizeofReqHeader = 12 := rfl
  have hmessage : sizeofReqMessage = 8196 := rfl
  have hfront : (leEncode 4 (sizeofReqHeader + 4 + payload.length) ++ leEncode 4 t ++
      leEncode 4 r ++ leEncode 4 payload.length).length = sizeofReqHeader + 4 := by
    simp only [List.length_append, leEncode_length]
    rfl
  have hview : (reqMessage t r payload).length - sizeofReqHeader = payload.length + 4 := by
    rw [length_reqMessage]
    omega
  have hfour : 4 ≤ sizeofReqMessage - (reqMessage t r payload).length := by
    rw [length_reqMessage]
    omega
  calc slice (reqMessage t r payload ++
          List.replicate (sizeofReqMessage - (reqMessage t r payload).length) 0)
        (sizeofReqHeader + 4) ((reqMessage t r payload).length - sizeofReqHeader)
      = (payload ++ List.replicate (sizeofReqMessage - (reqMessage t r payload).length) 0).take
          (payload.length + 4) := by
        rw [hview, reqMessage, List.append_assoc, slice_at hfront]
    _ = payload ++ List.replicate 4 0 := by
        rw [List.take_length_add_append, List.take_replicate, Nat.min_eq_left hfour]

theorem createJob_echo (hr : r < 2 ^ 32) (hlen : payload.length ≤ sizeofEchoParameter) :
    createJob a i o (reqMessage echo r payload) =
      if a.block = false ∨ payload.length + 4 > sizeofEchoParameter then none
      else
        some
          { kind := .EchoJob, clientIndex := i, reqNo := r, packet := none, origin := o
            param := payload ++ List.replicate (sizeofEchoParameter - payload.length) 0 } := by
  have hparam : sizeofEchoParameter = 84 := rfl
  have hheader : sizeofReqHeader = 12 := rfl
  have hmin : headerSize ≤ (reqMessage echo r payload).length := by
    rw [length_reqMessage, show headerSize = 12 from rfl]
    omega
  have hmax : (reqMessage echo r payload).length ≤ sizeofReqMessage := by
    rw [length_reqMessage, show sizeofReqMessage = 8196 from rfl]
    omega
  obtain ⟨htype, hno⟩ := reqMessage_fields hr (by decide : echo < 2 ^ 32) payload
  have hcount : (payload ++ List.replicate 4 (0 : UInt8)).length = payload.length + 4 := by
    rw [List.length_append, List.length_replicate]
  have hreqNo : readU32 (reqMessage echo r payload ++
      List.replicate (sizeofReqMessage - (reqMessage echo r payload).length) 0) 8 = r :=
    (readU32_append (Nat.le_trans (by decide) hmin) _).trans hno
  have hfunc : createFuncs a.wild (toInt32 echo) = some .EchoJob := rfl
  rw [createJob_of_fits hmin hmax, htype, if_neg (by decide : ¬ toInt32 echo > reqTypeLast), hfunc,
    Option.bind_some]
  simp only [jobFrom, hreqNo, payload_view echo r hlen, hcount,
    JobKind.parse_param (by decide : JobKind.EchoJob ≠ .ReqTokenJob)]
  cases hblock : a.block with
  | false => rfl
  | true =>
    by_cases hlong : payload.length + 4 > sizeofEchoParameter
    · rw [if_neg Bool.noConfusion, if_pos (Or.inr hlong), if_pos hlong]
    · have hno : ¬ (true = false ∨ payload.length + 4 > sizeofEchoParameter) :=
        not_or.mpr ⟨Bool.noConfusion, hlong⟩
      -- the four zeros stand where the parameter is filled up anyway
      have hpad : payload ++ List.replicate 4 (0 : UInt8) ++
          List.replicate (sizeofEchoParameter - (payload.length + 4)) 0 =
          payload ++ List.replicate (sizeofEchoParameter - payload.length) 0 := by
        have hsum : 4 + (sizeofEchoParameter - (payload.length + 4)) =
            sizeofEchoParameter - payload.length := by omega
        rw [List.append_assoc, List.replicate_append_replicate, hsum]
      rw [if_neg Bool.noConfusion, if_neg hno, if_neg hlong, hpad]
      rfl

/-- The response of a job with a whole parameter carries the parameter. -/
theorem execute_param (hkind : j.kind = .EchoJob) (hlen : j.param.length = sizeofEchoParameter)
    {p : PacketData} (hp : a.alloc = some p) :
    (j.execute a).2.1 = true ∧
      ∃ p' ∈ (j.execute a).1.packet, p'.bytes.drop sizeofInfoHeader = j.param := by
  have hfits : (j.response a.token).length ≤ maxPayloadSize := by
    simp only [Job.response, hkind, hlen]
    decide
  obtain ⟨htrue, -, hbytes⟩ :=
    PacketData.init_bytes (p := p) .REQ_SUCCESS j.reqNo (j.response a.token) hfits
  simp only [Job.execute, hp]
  split
  · next p' hinit => rw [hinit] at htrue; cases htrue
  · next p' hinit =>
    rw [hinit] at hbytes
    refine ⟨rfl, _, rfl, ?_⟩
    have hsame : ({ p' with origin := j.origin } : PacketData).bytes = p'.bytes := rfl
    have hthree : ∀ x y z, (leEncode 4 x ++ leEncode 4 y ++ leEncode 4 z).length =
        sizeofInfoHeader := by
      intro x y z
      simp only [List.length_append, leEncode_length]
      rfl
    rw [hsame, hbytes, List.drop_left' (hthree _ _ _)]
    simp only [Job.response, hkind]

/-- An `ECHO` request is decoded if and only if its payload is at most 80 bytes long and there
is memory for the job. -/
theorem decoded_iff (hr : r < 2 ^ 32) (hlen : payload.length ≤ sizeofEchoParameter) :
    Decoded a i o r payload ↔ payload.length ≤ 80 ∧ a.block = true := by
  have hparam : sizeofEchoParameter = 84 := rfl
  unfold Decoded
  rw [createJob_echo hr hlen]
  constructor
  · intro h
    obtain ⟨j, hj, -⟩ := h
    split at hj
    · cases hj
    · next hno =>
      obtain ⟨hblock, hlong⟩ := not_or.mp hno
      exact ⟨by omega, Bool.of_not_eq_false hblock⟩
  · intro h
    have hno : ¬ (a.block = false ∨ payload.length + 4 > sizeofEchoParameter) := by
      rw [h.2]
      exact not_or.mpr ⟨Bool.noConfusion, by omega⟩
    rw [if_neg hno]
    refine ⟨_, rfl, rfl, rfl, rfl, fun a' p hp => execute_param rfl ?_ hp⟩
    rw [List.length_append, List.length_replicate]
    omega

theorem decoded_small : Decoded {} 3 0 7 [1, 2, 3] :=
  (decoded_iff (by decide) (by decide)).mpr (by decide)

/-- A request with a whole parameter is refused. -/
theorem whole_param_refused :
    createJob {} 3 0 (reqMessage echo 7 (List.replicate sizeofEchoParameter 1)) = none ∧
      ¬ Decoded {} 3 0 7 (List.replicate sizeofEchoParameter 1) := by
  have hnone :
      createJob {} 3 0 (reqMessage echo 7 (List.replicate sizeofEchoParameter 1)) = none := by
    decide +kernel
  refine ⟨hnone, fun h => ?_⟩
  obtain ⟨j, hj, -⟩ := h
  rw [hnone] at hj
  cases hj

end RacingGameServer
