import SocketServerLib.Lib.ChunkedFraming
import SocketServerLib.Lib.Draining
import SocketServerLib.RacingGameServer.SlideBuffer
import SocketServerLib.IOCPServer.Job

/-
  `OnReceive` of the IOCP server: the messages of one connection's receive buffer go to
  `CreateJob` one after the other, and each is popped, whether it became a job or not.

  `answer k` is what the call number `k` of `CreateJob` answers: a job, or `none` for a
  null pointer. The loop has fuel.

  What is proved:
    1. `cuts` — the loop takes the frames of `reqFraming` off the buffer.
    2. `turn_jobs` — what a turn adds to the job queue.
    3. `onReceive_drains` — the loop ends, `CreateJob` has got the frames in order, the jobs
       are queued in order, and what is left holds no complete frame.

  What is assumed: one worker at a time runs `OnReceive` for a connection, as the next receive is
  posted when it has returned.
-/
namespace IOCPServer
open RacingGameServer (Bytes SlideBuffer readU32 readU32_front)
open PrefixFraming Draining

def maxRecvSlideBufferSize : Nat := maxSockbuf

/-- The length of the view, if `Connection::GetReqMessage` returns true. -/
def getReqMessage (recvBuffer : SlideBuffer) : Option Nat :=
  let len := recvBuffer.peek
  if len > packetSize then none
  else if len = 0 then none
  else if recvBuffer.size < len then none
  else some len

/-- `calls` is the number of calls of `CreateJob` so far. -/
structure Receiving (J : Type*) where
  recvBuffer : SlideBuffer
  jobQueue : List J
  calls : Nat

namespace Receiving

variable {J : Type*} {answer : Nat → Bytes → Option J} {s s' : Receiving J}

def popReqMsg (s : Receiving J) (len : Nat) : Receiving J :=
  { s with recvBuffer := (s.recvBuffer.pop len).1 }

/-- One turn of the loop: what `CreateJob` reads in the view, and what the turn leaves. -/
def turn (answer : Nat → Bytes → Option J) (s : Receiving J) : Option (Bytes × Receiving J) :=
  match getReqMessage s.recvBuffer with
  | none => none
  | some len =>
    let sv := s.recvBuffer.data.take len
    match answer s.calls sv with
    | none => some (sv, { s with calls := s.calls + 1 }.popReqMsg len)
    | some pJob =>
      some (sv, { s with jobQueue := s.jobQueue ++ [pJob], calls := s.calls + 1 }.popReqMsg len)

/-- The second component lists the messages that `CreateJob` got. -/
def onReceive (answer : Nat → Bytes → Option J) (fuel : Nat) (s : Receiving J) :
    Option (Receiving J × List Bytes) :=
  loop (turn answer) fuel s []

end Receiving

/-- The framing rule of `GetReqMessage`: a length from 1 to `PACKET_SIZE`, which `Peek` reads from
5 bytes on, and that many bytes. -/
def reqFraming : PrefixFraming UInt8 :=
  (lengthField 5 (readU32 · 0) readU32_front).upTo packetSize

/-- The jobs that `CreateJob` makes of the messages, from call number `calls` on. -/
def jobsOf {J : Type*} (answer : Nat → Bytes → Option J) (calls : Nat) (msgs : List Bytes) :
    List J :=
  (msgs.zipIdx calls).filterMap fun m => answer m.2 m.1

/-- `GetReqMessage` is the framing rule. -/
theorem getReqMessage_eq {b : SlideBuffer} (h : b.Wf) :
    getReqMessage b = reqFraming.next b.bytes := by
  show getReqMessage b =
    ((lengthField 5 (readU32 · 0) readU32_front).next b.bytes).filter (· ≤ packetSize)
  rw [getReqMessage, h.next_peek]
  by_cases hthere : 0 < b.peek ∧ b.peek ≤ b.size
  · rw [if_pos hthere, Option.filter_some]
    by_cases hmax : b.peek > packetSize
    · rw [if_pos hmax, if_neg fun hle => Nat.not_le_of_lt hmax (of_decide_eq_true hle)]
    · rw [if_neg hmax, if_neg (by omega), if_neg (by omega),
        if_pos (decide_eq_true (Nat.le_of_not_lt hmax))]
  · -- the length is 0, or the buffer does not have as much
    rw [if_neg hthere, Option.filter_none]
    by_cases hmax : b.peek > packetSize
    · rw [if_pos hmax]
    · rw [if_neg hmax]
      by_cases hzero : b.peek = 0
      · rw [if_pos hzero]
      · rw [if_neg hzero, if_pos (by omega)]

theorem jobsOf_append {J : Type*} (answer : Nat → Bytes → Option J) (calls : Nat)
    (msgs : List Bytes) (sv : Bytes) : jobsOf answer calls (msgs ++ [sv]) =
      jobsOf answer calls msgs ++ (answer (calls + msgs.length) sv).toList := by
  rw [jobsOf, List.zipIdx_append, List.filterMap_append]
  show jobsOf answer calls msgs ++ [(sv, calls + msgs.length)].filterMap _ = _
  cases h : answer (calls + msgs.length) sv with
  | none => simp [h]
  | some job => simp [h]

namespace Receiving

variable {J : Type*} {answer : Nat → Bytes → Option J} {s s' : Receiving J} {sv : Bytes}

/-- The part of the state that the loop condition looks at. -/
def content (s : Receiving J) : Bytes := s.recvBuffer.bytes

/-! ## One turn -/

theorem turn_of_next (h : s.recvBuffer.Wf) {n : Nat}
    (hn : reqFraming.next s.recvBuffer.bytes = some n) : turn answer s =
      some (s.recvBuffer.bytes.take n,
        { recvBuffer := (s.recvBuffer.pop n).1
          jobQueue := s.jobQueue ++ (answer s.calls (s.recvBuffer.bytes.take n)).toList
          calls := s.calls + 1 }) := by
  have hle := reqFraming.le hn
  rw [h.bytes_length] at hle
  rw [turn, getReqMessage_eq h, hn]
  simp only [SlideBuffer.take_data s.recvBuffer hle]
  cases answer s.calls (s.recvBuffer.bytes.take n) with
  | none => simp [popReqMsg]
  | some job => rfl

theorem turn_of_none (h : s.recvBuffer.Wf) (hn : reqFraming.next s.recvBuffer.bytes = none) :
    turn answer s = none := by
  rw [turn, getReqMessage_eq h, hn]

/-- Every turn takes a frame off the buffer, also where `CreateJob` answers with a null pointer. -/
theorem cuts : Cuts reqFraming content (fun _ => False) (fun s : Receiving J => s.recvBuffer.Wf)
    (turn answer) where
  next_stuck := False.elim
  cut h hn := by
    have hle := reqFraming.le hn
    rw [content, h.bytes_length] at hle
    obtain ⟨-, hbytes, hwf⟩ := SlideBuffer.pop_spec h hle
    exact ⟨_, turn_of_next h hn, hwf, hbytes⟩
  stop h hn _ := turn_of_none h hn
  stick _ hno := hno.elim

/-- The job of the message, if there is one, goes behind the others. -/
theorem turn_jobs (h : turn answer s = some (sv, s')) :
    s'.jobQueue = s.jobQueue ++ (answer s.calls sv).toList ∧ s'.calls = s.calls + 1 := by
  cases hget : getReqMessage s.recvBuffer with
  | none =>
    simp only [turn, hget] at h
    cases h
  | some len =>
    cases hjob : answer s.calls (s.recvBuffer.data.take len) with
    | none =>
      simp only [turn, hget, hjob] at h
      obtain ⟨rfl, rfl⟩ := Prod.mk.inj (Option.some.inj h)
      rw [hjob]
      exact ⟨(List.append_nil _).symm, rfl⟩
    | some job =>
      simp only [turn, hget, hjob] at h
      obtain ⟨rfl, rfl⟩ := Prod.mk.inj (Option.some.inj h)
      rw [hjob]
      exact ⟨rfl, rfl⟩

/-! ## `OnReceive` -/

/-- What `OnReceive` has done when it returns, with the messages that `CreateJob` got. -/
structure Drained (answer : Nat → Bytes → Option J) (s s' : Receiving J) (msgs : List Bytes) :
    Prop where
  frames : msgs = reqFraming.frames s.recvBuffer.bytes
  suffix : msgs.flatten ++ s'.recvBuffer.bytes = s.recvBuffer.bytes
  jobQueue : s'.jobQueue = s.jobQueue ++ jobsOf answer s.calls msgs
  last : getReqMessage s'.recvBuffer = none

/-- For every content of the buffer and all answers of `CreateJob`: the loop ends, and has drained
the buffer. -/
theorem onReceive_drains (h : s.recvBuffer.Wf) {fuel : Nat} (hfuel : s.recvBuffer.size < fuel) :
    ∃ s' msgs, onReceive answer fuel s = some (s', msgs) ∧ Drained answer s s' msgs := by
  have hlen : s.content.length < fuel := by
    rw [content, h.bytes_length]
    exact hfuel
  obtain ⟨s', hloop, hwf, hrest, -⟩ :=
    (cuts (J := J)).loop_frames h not_false hlen []
  rw [List.nil_append] at hloop
  refine ⟨s', _, hloop, rfl, ?_, ?_, ?_⟩
  · show (reqFraming.frames s.content).flatten ++ s'.content = s.content
    rw [hrest]
    exact flatten_frames_append_rest s.content
  · -- the jobs are those of the messages so far, at every turn
    have hjobs : s'.jobQueue = s.jobQueue ++ jobsOf answer s.calls
          (reqFraming.frames s.content) ∧
        s'.calls = s.calls + (reqFraming.frames s.content).length := by
      refine loop_invariant (J := fun t msgs => t.jobQueue =
          s.jobQueue ++ jobsOf answer s.calls msgs ∧ t.calls = s.calls + msgs.length)
        ?_ ⟨(List.append_nil _).symm, rfl⟩ hloop
      intro t msgs sv t' ht hturn
      obtain ⟨hqueue, hcalls⟩ := turn_jobs hturn
      refine ⟨?_, ?_⟩
      · rw [hqueue, ht.1, ht.2, jobsOf_append, List.append_assoc]
      · rw [hcalls, ht.2, List.length_append, List.length_singleton, Nat.add_assoc]
    exact hjobs.1
  · rw [getReqMessage_eq hwf]
    show reqFraming.next s'.content = none
    rw [hrest]
    exact next_rest s.content

/-- The buffer of a connection that holds these bytes. -/
def holding (bytes : Bytes) : Receiving EchoJob :=
  { recvBuffer := ((SlideBuffer.init maxRecvSlideBufferSize).enqueue (some bytes) bytes.length).1
    jobQueue := [], calls := 0 }

/-- An echo request without payload. -/
def echoFrame : Bytes := [12, 0, 0, 0, 0, 0, 0, 0, 7, 0, 0, 0]

/-- A frame that is shorter than the header, and an echo request: the first is dropped. -/
theorem onReceive_drains_two : ∃ s' msgs,
    onReceive (fun _ f => (createJob 3 f true).join) 19
      (holding ([6, 0, 0, 0, 65, 66] ++ echoFrame)) =
        some (s', msgs) ∧
      Drained (fun _ f => (createJob 3 f true).join)
        (holding ([6, 0, 0, 0, 65, 66] ++ echoFrame)) s'
        msgs :=
  onReceive_drains (SlideBuffer.enqueue_init (by decide) (by decide)).1 (by decide)

end Receiving

end IOCPServer
