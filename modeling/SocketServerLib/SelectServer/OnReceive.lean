import SocketServerLib.Lib.ChunkedFraming
import SocketServerLib.Lib.Draining
import SocketServerLib.RacingGameServer.SlideBuffer
import SocketServerLib.SelectServer.JobFactory

/-
  `OnReceive` of the select server: the messages of one client's receive buffer go to
  `CreateJob` one after the other. A message that became a job is popped; one that did not
  is not, and `OnReceive` returns.

  `answer k` is what the call number `k` of `CreateJob` answers: a job, or `none` for a null
  pointer. `returned` is whether `OnReceive` has left its loop. The loop has fuel.

  What is proved:
    1. `turn_accepted`, `turn_rejected` — what a turn does with a message.
    2. `onReceive_drains_iff` — `OnReceive` returns; no complete frame is left at the front
       of the buffer then if and only if every complete frame became a job.
    3. `rejected_stays` — a request that is too short to be an echo request, and a good one
       behind it.

  What is assumed: nobody else uses the receive buffer meanwhile.
-/
namespace SelectServer
open RacingGameServer (Bytes SlideBuffer leEncode readU32 readU32_front)
open PrefixFraming Draining

def maxRecvSlideBufferSize : Nat := 1024

/-- The length of the view, if `GetReqMsg` returns true. -/
def getReqMsg (recvBuffer : SlideBuffer) : Option Nat :=
  let uRet := recvBuffer.peek
  if uRet = 0 then none
  else if uRet > recvBuffer.size then none
  else some uRet

/-- `calls` is the number of calls of `CreateJob` so far. -/
structure Receiving (J : Type*) where
  recvBuffer : SlideBuffer
  jobQueue : List J
  calls : Nat
  returned : Bool

namespace Receiving

variable {J : Type*}

def popMsg (s : Receiving J) (len : Nat) : Receiving J :=
  { s with recvBuffer := (s.recvBuffer.pop len).1 }

/-- One turn of the loop: what `CreateJob` reads in the view, and what the turn leaves. -/
def turn (answer : Nat → Bytes → Option J) (s : Receiving J) : Option (Bytes × Receiving J) :=
  if s.returned = true then none
  else
    match getReqMsg s.recvBuffer with
    | none => none
    | some len =>
      let sv := s.recvBuffer.data.take len
      match answer s.calls sv with
      | none => some (sv, { s with calls := s.calls + 1, returned := true })
      | some pJob =>
        some (sv, { s with jobQueue := s.jobQueue ++ [pJob], calls := s.calls + 1 }.popMsg len)

/-- The second component lists the messages that `CreateJob` got. -/
def onReceive (answer : Nat → Bytes → Option J) (fuel : Nat) (recvBuffer : SlideBuffer)
    (jobQueue : List J) : Option (Receiving J × List Bytes) :=
  loop (turn answer) fuel
    { recvBuffer := recvBuffer, jobQueue := jobQueue, calls := 0, returned := false } []

end Receiving

/-- The framing rule of `GetReqMsg`: a length that is not 0, which `Peek` reads from 5 bytes on, and
that many bytes. -/
def reqFraming : PrefixFraming UInt8 :=
  lengthField 5 (readU32 · 0) readU32_front

/-- `GetReqMsg` is the framing rule. -/
theorem getReqMsg_eq {b : SlideBuffer} (h : b.Wf) : getReqMsg b = reqFraming.next b.bytes := by
  rw [getReqMsg, reqFraming, h.next_peek]
  by_cases hzero : b.peek = 0
  · rw [if_pos hzero, if_neg (by omega)]
  · rw [if_neg hzero]
    by_cases hlong : b.peek > b.size
    · rw [if_pos hlong, if_neg (by omega)]
    · rw [if_neg hlong, if_pos (by omega)]

namespace Receiving

variable {J : Type*} {answer : Nat → Bytes → Option J} {s s' : Receiving J} {n : Nat}

/-! ## One turn -/

theorem turn_of_none (h : s.recvBuffer.Wf) (hn : reqFraming.next s.recvBuffer.bytes = none) :
    turn answer s = none := by
  rw [← getReqMsg_eq h] at hn
  simp only [turn, hn]
  split <;> rfl

/-- A message that becomes a job is popped. -/
theorem turn_accepted (h : s.recvBuffer.Wf) (hopen : s.returned = false)
    (hn : reqFraming.next s.recvBuffer.bytes = some n) {job : J}
    (hjob : answer s.calls (s.recvBuffer.bytes.take n) = some job) :
    ∃ s', turn answer s = some (s.recvBuffer.bytes.take n, s') ∧ s'.recvBuffer.Wf ∧
      s'.recvBuffer.bytes = s.recvBuffer.bytes.drop n ∧ s'.calls = s.calls + 1 ∧
      s'.returned = false := by
  have hle := reqFraming.le hn
  rw [h.bytes_length] at hle
  obtain ⟨-, hbytes, hwf⟩ := SlideBuffer.pop_spec h hle
  rw [← SlideBuffer.take_data s.recvBuffer hle] at hjob ⊢
  rw [← getReqMsg_eq h] at hn
  refine ⟨{ s with jobQueue := s.jobQueue ++ [job], calls := s.calls + 1 }.popMsg n, ?_, hwf,
    hbytes, rfl, hopen⟩
  simp only [turn, hopen, Bool.false_eq_true, if_false, hn, hjob]

/-- One that does not stays, and the loop is left. -/
theorem turn_rejected (h : s.recvBuffer.Wf) (hopen : s.returned = false)
    (hn : reqFraming.next s.recvBuffer.bytes = some n)
    (hjob : answer s.calls (s.recvBuffer.bytes.take n) = none) :
    turn answer s = some (s.recvBuffer.bytes.take n,
      { s with calls := s.calls + 1, returned := true }) := by
  have hle := reqFraming.le hn
  rw [h.bytes_length] at hle
  rw [← SlideBuffer.take_data s.recvBuffer hle] at hjob ⊢
  rw [← getReqMsg_eq h] at hn
  simp only [turn, hopen, Bool.false_eq_true, if_false, hn, hjob]

/-! ## `OnReceive` -/

/-- From the head of the loop: it is left, and no complete frame is left exactly if every complete
frame becomes a job. -/
theorem loop_drains_iff (answer : Nat → Bytes → Option J) (h : s.recvBuffer.Wf)
    (hopen : s.returned = false) {fuel : Nat}
    (hfuel : s.recvBuffer.bytes.length + 1 < fuel) (given : List Bytes) :
    ∃ s' msgs, loop (turn answer) fuel s given = some (s', msgs) ∧
      (getReqMsg s'.recvBuffer = none ↔
        ∀ m f, (reqFraming.frames s.recvBuffer.bytes)[m]? = some f →
          (answer (s.calls + m) f).isSome) := by
  induction fuel generalizing s given with
  | zero => omega
  | succ fuel ih =>
    cases hn : reqFraming.next s.recvBuffer.bytes with
    | none =>
      refine ⟨s, given, loop_of_none (turn_of_none h hn) fuel given, ?_⟩
      rw [getReqMsg_eq h, hn, frames_of_none hn]
      exact iff_of_true rfl fun m f hf => by cases hf
    | some n =>
      have hpos := reqFraming.pos hn
      have hle := reqFraming.le hn
      cases hjob : answer s.calls (s.recvBuffer.bytes.take n) with
      | none =>
        -- the next turn leaves the loop, with this frame at the front
        obtain ⟨fuel, rfl⟩ : ∃ k, fuel = k + 1 := ⟨fuel - 1, by omega⟩
        refine ⟨{ s with calls := s.calls + 1, returned := true }, _,
          (loop_of_some (turn_rejected h hopen hn hjob) _ given).trans (loop_of_none rfl _ _), ?_⟩
        refine iff_of_false ?_ fun hall => ?_
        · show getReqMsg s.recvBuffer ≠ none
          rw [getReqMsg_eq h, hn]
          exact Option.some_ne_none n
        · have hfirst := hall 0 _ (by rw [frames_of_some hn]; rfl)
          rw [Nat.add_zero, hjob] at hfirst
          cases hfirst
      | some job =>
        obtain ⟨t, hturn, hwf, hbytes, hcalls, hopen'⟩ := turn_accepted h hopen hn hjob
        have hshort : t.recvBuffer.bytes.length + 1 < fuel := by
          rw [hbytes, List.length_drop]
          omega
        obtain ⟨s', msgs, hloop, hiff⟩ := ih hwf hopen' hshort
          (given ++ [s.recvBuffer.bytes.take n])
        refine ⟨s', msgs, (loop_of_some hturn fuel given).trans hloop, hiff.trans ?_⟩
        -- frame `m + 1` of the buffer is frame `m` of what the next turn finds
        rw [hbytes, hcalls, frames_of_some hn]
        constructor
        · intro hall m f hf
          cases m with
          | zero =>
            cases hf
            rw [Nat.add_zero, hjob]
            rfl
          | succ m =>
            rw [show s.calls + (m + 1) = s.calls + 1 + m by omega]
            exact hall m f hf
        · intro hall m f hf
          rw [show s.calls + 1 + m = s.calls + (m + 1) by omega]
          exact hall (m + 1) f hf

/-- `OnReceive` returns, and `GetReqMsg` is false then exactly if `CreateJob` has a job for every
complete frame at the front of the buffer. -/
theorem onReceive_drains_iff {b : SlideBuffer} (h : b.Wf) (answer : Nat → Bytes → Option J)
    (jobQueue : List J) {fuel : Nat} (hfuel : b.size + 1 < fuel) :
    ∃ s' msgs, onReceive answer fuel b jobQueue = some (s', msgs) ∧
      (getReqMsg s'.recvBuffer = none ↔
        ∀ m f, (reqFraming.frames b.bytes)[m]? = some f → (answer m f).isSome) := by
  rw [← h.bytes_length] at hfuel
  obtain ⟨s', msgs, hloop, hiff⟩ := loop_drains_iff answer
    (s := { recvBuffer := b, jobQueue := jobQueue, calls := 0, returned := false }) h rfl hfuel []
  refine ⟨s', msgs, hloop, hiff.trans ?_⟩
  simp only [Nat.zero_add]

/-- `JobFactory::CreateJob` for the client of socket 5. -/
def create (_ : Nat) (sv_ : Bytes) : Option EchoJob := (createJob 5 sv_).join

/-- The receive buffer of a client that has sent these bytes. -/
def holding (bytes : Bytes) : SlideBuffer :=
  ((SlideBuffer.init maxRecvSlideBufferSize).enqueue (some bytes) bytes.length).1

/-- An echo request with its whole payload, and one without. -/
def echoFrame : Bytes := leEncode 4 96 ++ leEncode 4 0 ++ leEncode 4 7 ++ List.replicate 84 65

def shortFrame : Bytes := leEncode 4 12 ++ leEncode 4 0 ++ leEncode 4 7

theorem wf_holding (bytes : Bytes) (h : bytes.length ≤ maxRecvSlideBufferSize) :
    (holding bytes).Wf ∧ (holding bytes).bytes = bytes :=
  SlideBuffer.enqueue_init (by decide) h

/-- A good request is taken off the buffer. -/
theorem onReceive_drains_iff_echo : ∃ s' msgs,
    onReceive create 98 (holding echoFrame) [] = some (s', msgs) ∧
      getReqMsg s'.recvBuffer = none := by
  obtain ⟨hwf, hbytes⟩ := wf_holding echoFrame (by decide)
  obtain ⟨s', msgs, hs, hiff⟩ := onReceive_drains_iff hwf create []
    (show (holding echoFrame).size + 1 < 98 by decide)
  refine ⟨s', msgs, hs, hiff.mpr ?_⟩
  rw [hbytes, frames_of_some (n := 96) (by decide +kernel), frames_of_none (by decide +kernel)]
  intro m f hf
  cases m with
  | zero =>
    cases hf
    decide +kernel
  | succ m => cases hf

/-- A request without payload is refused and stays in front of the good one behind it. -/
theorem rejected_stays : ¬ ∀ (b : SlideBuffer), b.Wf → ∀ (answer : Nat → Bytes → Option EchoJob)
    (fuel : Nat) (s' : Receiving EchoJob) (msgs : List Bytes),
    onReceive answer fuel b [] = some (s', msgs) → getReqMsg s'.recvBuffer = none := by
  intro h
  have hrun : (onReceive create 110 (holding (shortFrame ++ echoFrame)) []).map
      (fun r => getReqMsg r.1.recvBuffer) = some (some 12) := by decide +kernel
  obtain ⟨⟨s', msgs⟩, hs, hend⟩ := Option.map_eq_some_iff.mp hrun
  have hnone := h _ (wf_holding _ (by decide)).1 create 110 s' msgs hs
  cases hend.symm.trans hnone

end Receiving

end SelectServer
