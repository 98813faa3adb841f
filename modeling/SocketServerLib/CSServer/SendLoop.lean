import SocketServerLib.CSServer.RecvLoop
import SocketServerLib.Lib.AnsweredLoop

/-
  The loop of `ClientContext.SendMsg` where `SendAsync` may throw.

  `handle` is a task and never null, so that the flow comes to the loop once `Enqueue` has stored
  its message. An answer of `SendAsync` is the number of bytes it has room for, of which it takes
  those that it is offered, or an exception.

  What is proved:
    1. `sendMsg_returns_iff` — `SendMsg` returns if and only if it does not come to the loop, or
       the first calls of `SendAsync` have room for all that is in the buffer, or one throws
       something else than a `SocketException`.
    2. `reset_never_returns` — on a connection that has been reset it does not.

  What is assumed: one flow is in `SendMsg`, and nobody closes the socket meanwhile.
-/
namespace CSServer
open RacingGameServer (Bytes)
open AnsweredLoop Finset

inductive SendException where
  | socketException
  | argumentException
  | objectDisposedException
  | other
  deriving DecidableEq

/-- `HandleSendException`: whether the connection is kept. -/
def handleSendException : SendException → Bool
  | .socketException => true
  | .argumentException => false
  | .objectDisposedException => false
  | .other => false

inductive SendOutcome where
  | sent (room : Nat)
  | threw (ex : SendException)
  deriving DecidableEq

/-- The part of `ClientContext` that sends; `socket` is whether `m_Socket` is there. -/
structure SendContext where
  socket : Bool
  sendBuffer : SlideBuffer

namespace SendContext

/-- `SendAsync` has taken `sent` bytes. -/
def popSent (c : SendContext) (sent : Nat) : SendContext :=
  if sent > 0 then { c with sendBuffer := (c.sendBuffer.pop sent).1 } else c

/-- One turn of the loop. -/
def turn (c : SendContext) (outcome : SendOutcome) : (Bool × SendContext) ⊕ SendContext :=
  if c.sendBuffer.size = 0 then .inl (true, c)
  else
    let msgSize :=
      if c.sendBuffer.size > maxSegmentSize then maxSegmentSize else c.sendBuffer.size
    match outcome with
    | .sent room => .inr (c.popSent (min room msgSize))
    | .threw ex => if handleSendException ex = false then .inl (false, c) else .inr c

def sendMsg (fuel : Nat) (outcomes : Nat → SendOutcome) (c : SendContext) (msg : Bytes)
    (size_ : Nat) : Option (Bool × SendContext) :=
  if c.socket = false then some (false, c)
  else
    let stored := c.sendBuffer.enqueue msg size_
    if stored.2 = false then some (false, { c with sendBuffer := stored.1 })
    else loop turn fuel outcomes { c with sendBuffer := stored.1 }

/-- `Enqueue` refuses the message. -/
def Refused (c : SendContext) (msg : Bytes) (size_ : Nat) : Prop :=
  0 < size_ ∧ (msg.length < size_ ∨ c.sendBuffer.cap - c.sendBuffer.size < size_)

/-- The most that a call takes: it is never offered more than a segment. -/
def taken : SendOutcome → Nat
  | .sent room => min room maxSegmentSize
  | .threw _ => 0

/-- The call ends the loop. -/
def Stops : SendOutcome → Prop
  | .sent _ => False
  | .threw ex => ex ≠ .socketException

variable {c : SendContext} {outcomes : Nat → SendOutcome} {msg : Bytes} {size_ : Nat}

theorem handleSendException_eq_false {ex : SendException} :
    handleSendException ex = false ↔ ex ≠ .socketException := by
  cases ex <;> simp [handleSendException]

theorem popSent_size {n : Nat} (hn : n ≤ c.sendBuffer.size) :
    (c.popSent n).sendBuffer.size = c.sendBuffer.size - n := by
  unfold popSent
  split
  · next hpos =>
    unfold SlideBuffer.pop
    rw [if_neg (by omega), if_neg (by omega)]
  · next hzero => rw [Nat.eq_zero_of_not_pos hzero, Nat.sub_zero]

/-- The buffer gets shorter by what each call takes. -/
theorem turn_countdown : Countdown turn (fun c => c.sendBuffer.size) taken Stops where
  leave c a h := by
    by_cases hsize : c.sendBuffer.size = 0
    · exact ⟨_, if_pos hsize⟩
    · have hstop : Stops a := h.resolve_left hsize
      cases a with
      | sent room => exact hstop.elim
      | threw ex =>
        rw [turn, if_neg hsize]
        exact ⟨_, if_pos (handleSendException_eq_false.mpr hstop)⟩
  go c a hsize hstop := by
    rw [turn, if_neg hsize]
    cases a with
    | sent room =>
      have hle : min room (if c.sendBuffer.size > maxSegmentSize then maxSegmentSize
          else c.sendBuffer.size) ≤ c.sendBuffer.size := by
        split <;> omega
      refine ⟨_, rfl, (popSent_size hle).trans ?_⟩
      simp only [taken]
      split <;> omega
    | threw ex =>
      have hkept : ¬ handleSendException ex = false := fun h =>
        hstop (handleSendException_eq_false.mp h)
      exact ⟨c, if_neg hkept, rfl⟩

theorem enqueue_refused (h : c.Refused msg size_) : (c.sendBuffer.enqueue msg size_).2 = false := by
  obtain ⟨hpos, hor⟩ := h
  unfold SlideBuffer.enqueue
  rw [if_neg (by omega)]
  split
  · rfl
  · next hmsg => rw [if_pos (hor.resolve_left hmsg)]

/-- A message that is stored makes the buffer as much longer. -/
theorem enqueue_stored (h : ¬ c.Refused msg size_) :
    (c.sendBuffer.enqueue msg size_).2 = true ∧
      (c.sendBuffer.enqueue msg size_).1.size = c.sendBuffer.size + size_ := by
  unfold SlideBuffer.enqueue
  by_cases hzero : size_ < 1
  · obtain rfl : size_ = 0 := by omega
    exact ⟨rfl, rfl⟩
  · rw [if_neg hzero, if_neg fun hmsg => h ⟨by omega, .inl hmsg⟩,
      if_neg fun hfit => h ⟨by omega, .inr hfit⟩]
    exact ⟨rfl, rfl⟩

/-- `SendMsg` returns if and only if it does not come to its loop, or the first calls of
`SendAsync` take all that is in the buffer, or one of them throws something else than a
`SocketException`. -/
theorem sendMsg_returns_iff (c : SendContext) (msg : Bytes) (size_ : Nat)
    (outcomes : Nat → SendOutcome) :
    (∃ fuel r, sendMsg fuel outcomes c msg size_ = some r) ↔
      c.socket = false ∨ c.Refused msg size_ ∨
        ∃ n, c.sendBuffer.size + size_ ≤ ∑ m ∈ range n, taken (outcomes m) ∨
          Stops (outcomes n) := by
  by_cases hsocket : c.socket = false
  · simp only [sendMsg, if_pos hsocket]
    exact iff_of_true ⟨0, _, rfl⟩ (.inl hsocket)
  by_cases hrefused : c.Refused msg size_
  · simp only [sendMsg, if_neg hsocket, if_pos (enqueue_refused hrefused)]
    exact iff_of_true ⟨0, _, rfl⟩ (.inr (.inl hrefused))
  obtain ⟨hstored, hsize⟩ := enqueue_stored hrefused
  have hloop : Returns turn outcomes { c with sendBuffer := (c.sendBuffer.enqueue msg size_).1 } ↔
      _ := turn_countdown.returns_iff
  rw [hsize] at hloop
  rw [or_iff_right hsocket, or_iff_right hrefused, ← hloop]
  simp only [sendMsg, if_neg hsocket, hstored, Bool.true_eq_false, if_false, Returns]

/-- A client whose peer has reset the connection, with a message of four bytes. -/
def resetClient : SendContext := { socket := true, sendBuffer := .new sendBufferSize }

/-- Every call of `SendAsync` throws the `SocketException`, and `SendMsg` goes on for ever. -/
theorem reset_never_returns :
    ¬ ∃ fuel r,
      sendMsg fuel (fun _ => .threw .socketException) resetClient [7, 7, 7, 7] 4 = some r := by
  have hloop : ∀ fuel (c : SendContext), c.sendBuffer.size ≠ 0 →
      loop turn fuel (fun _ => .threw .socketException) c = none := by
    intro fuel c hsize
    induction fuel with
    | zero => rfl
    | succ fuel ih =>
      have hturn : turn c (.threw .socketException) = .inr c := by
        rw [turn, if_neg hsize]
        rfl
      rw [loop, hturn]
      exact ih
  intro hreturns
  obtain ⟨fuel, r, hr⟩ := hreturns
  cases (hloop fuel _ (by decide)).symm.trans hr

end SendContext

end CSServer
