import SocketServerLib.RacingGameServer.Connection
import SocketServerLib.Lib.TryLock

/-
  `GameServer::HandleReq` and the slot it works on, twice over the same parts.

    `parseReq`, `executeReq`, `sendRes`   the three phases, as the source has them;
    `handleReq`                           the whole call, run without interruption;
    `Slot.step`                           the same call as a machine, one shared access
                                          a step, for interleavings with other calls.

  `handleReq_solo` says that the machine, run alone, computes `handleReq`.

  `flag` is the `SpinLock` of `ProcessLocks[i]`, `true` when free. `session` and
  `hist` are ghosts: how often `ResetConnection` has run on the slot, and what the
  handler has done since the session began.
-/
namespace RacingGameServer

/-- What has happened since the session began: the bytes received, the messages given to
`CreateJob`, the responses successful `Execute` calls built, the packets `sendFunc` took. -/
structure History where
  received : Bytes
  given : List Bytes
  executed : List PacketData
  sent : List PacketData

def History.empty : History := ⟨[], [], [], []⟩

structure Slot where
  flag : Bool
  job : Option Job
  conn : Connection
  session : Nat
  hist : History

namespace Slot

/-- A slot after server start. -/
def new : Slot := { flag := true, job := none, conn := .new, session := 0, hist := .empty }

def setJobProcess (s : Slot) (e : JobProcess) : Slot :=
  { s with conn := { s.conn with jobProcess := e } }

/-- A completed `WSARecv` of these bytes is stored. -/
def recv (s : Slot) (chunk : Bytes) : Slot × Bool :=
  ({ s with
      conn := (s.conn.storePartialMessage chunk).1
      hist := { s.hist with received := s.hist.received ++ chunk } },
    (s.conn.storePartialMessage chunk).2)

/-- `DoDisconnect`, as far as it reaches the slot: `ResetConnection` touches neither the
stored phase nor `m_Jobs[i]`. -/
def disconnect (s : Slot) : Slot := { s with conn := s.conn.reset, session := s.session + 1 }

/-- `DoAccept`: `BindIOCP` marks the connection connected. The history starts anew. -/
def accept (s : Slot) : Slot :=
  { s with conn := { s.conn with isConnected := true }, hist := .empty }

variable (i : Nat)

/-! ## The phases -/

/-- `CreateJob` on a view of `len` bytes, and the store to `m_Jobs[i]`. The view was taken
in session `o`. -/
def createReq (a : Answers) (len o : Nat) (s : Slot) : Slot × Bool :=
  let sv := s.conn.view len
  let s := { s with hist := { s.hist with given := s.hist.given ++ [sv] } }
  match createJob a i o sv with
  | none => (s, false)
  | some j => ({ s with job := some j }, true)

def popReqMsg (len : Nat) (s : Slot) : Slot := { s with conn := s.conn.popRecvBuffer len }

def parseReq (a : Answers) (s : Slot) : Slot × Bool :=
  match s.conn.getReqMessage with
  | none => (s, false)
  | some len =>
    match s.createReq i a len s.session with
    | (s', false) => (s', false)
    | (s', true) => (s'.popReqMsg len, true)

def executeReq (a : Answers) (s : Slot) : Slot × Bool :=
  match s.job with
  | none => (s, false)
  | some j =>
    match j.execute a with
    | (j', false, _) => ({ s with job := some j' }, false)
    | (j', true, _) =>
      ({ s with
          job := some j'
          hist := { s.hist with executed := s.hist.executed ++ j'.packet.toList } }, true)

/-- `sent` is what `sendFunc` answers. -/
def sendRes (sent : Bool) (s : Slot) : Slot × Bool :=
  match s.job with
  | none => (s, false)
  | some j =>
    match j.sendRes sent with
    | (j', false) => ({ s with job := some j' }, false)
    | (_, true) =>
      ({ s with
          job := none
          hist := { s.hist with sent := s.hist.sent ++ j.packet.toList } }, true)

/-! ## The call, run alone -/

/-- `case SEND`; `none` says that the loop goes on. -/
def caseSend (a : Answers) (s : Slot) : Slot × Option InfoCode :=
  match s.sendRes a.sent with
  | (s', false) => (s'.setJobProcess .SEND, some .NOT_FINISHED)
  | (s', true) => (s', none)

/-- `case EXECUTE`, falling through to `case SEND`. -/
def caseExecute (a : Answers) (s : Slot) : Slot × Option InfoCode :=
  match s.executeReq a with
  | (s', false) => (s'.setJobProcess .EXECUTE, some .NOT_FINISHED)
  | (s', true) => s'.caseSend a

/-- `case PARSING`, falling through to `case EXECUTE`. -/
def caseParsing (a : Answers) (s : Slot) : Slot × Option InfoCode :=
  match s.parseReq i a with
  | (s', false) => (s'.setJobProcess .PARSING, some .REQ_FAILED)
  | (s', true) => s'.caseExecute a

/-- One turn of the loop. -/
def turn (a : Answers) (e : JobProcess) (s : Slot) : Slot × Option InfoCode :=
  match e with
  | .PARSING => s.caseParsing i a
  | .EXECUTE => s.caseExecute a
  | .SEND => s.caseSend a

/-- The loop; `ans k` is what the outside world answers in turn `k`. -/
def loop (ans : Nat → Answers) : (fuel k : Nat) → JobProcess → Slot → Option (Slot × InfoCode)
  | 0, _, _, _ => none
  | fuel + 1, k, e, s =>
    match s.turn i (ans k) e with
    | (s', some c) => some (s', c)
    | (s', none) => loop ans fuel (k + 1) .PARSING s'

/-- The whole call. Each turn but the first and the last takes a byte off the buffer, so the
fuel given is enough (`handleReq_returns`). -/
def handleReq (ans : Nat → Answers) (s : Slot) : Option (Slot × InfoCode) :=
  if s.flag = false then some (s, .NOT_MY_TURN)
  else
    (loop i ans (s.conn.recvBuffer.size + 2) 0 s.conn.jobProcess { s with flag := false }).map
      fun r => ({ r.1 with flag := true }, r.2)

end Slot

/-! ## The call as a machine -/

/-- Where a call of `HandleReq(i)` stands. `switch e` is the top of the loop (and of the
cases fallen into) with phase `e`; a view is a length and the session it was taken in. -/
inductive Pc where
  | tryLock
  | getJobProcess
  | switch (e : JobProcess)
  | createJob (len o : Nat)
  | popReqMsg (len : Nat)
  | setJobProcess (e : JobProcess) (c : InfoCode)
  | unlock (c : InfoCode)
  | ret (c : InfoCode)
  deriving DecidableEq, Repr

/-- The points at which the call owns the lock. -/
def Pc.Critical : Pc → Prop
  | .tryLock => False
  | .ret _ => False
  | _ => True

instance : DecidablePred Pc.Critical := fun pc => by
  cases pc <;> simp only [Pc.Critical] <;> infer_instance

namespace Slot

variable (i : Nat)

/-- One step of a call. -/
def step (a : Answers) (s : Slot) : Pc → Slot × Pc
  | .tryLock =>
    if s.flag = true then ({ s with flag := false }, .getJobProcess) else (s, .ret .NOT_MY_TURN)
  | .getJobProcess => (s, .switch s.conn.jobProcess)
  | .switch .PARSING =>
    -- the view is taken here and read by `CreateJob` a step later, outside `m_RecvLock`
    match s.conn.getReqMessage with
    | none => (s, .setJobProcess .PARSING .REQ_FAILED)
    | some len => (s, .createJob len s.session)
  | .createJob len o =>
    -- a refused message is not popped
    match s.createReq i a len o with
    | (s', false) => (s', .setJobProcess .PARSING .REQ_FAILED)
    | (s', true) => (s', .popReqMsg len)
  | .popReqMsg len => (s.popReqMsg len, .switch .EXECUTE)
  | .switch .EXECUTE =>
    match s.executeReq a with
    | (s', false) => (s', .setJobProcess .EXECUTE .NOT_FINISHED)
    | (s', true) => (s', .switch .SEND)
  | .switch .SEND =>
    match s.sendRes a.sent with
    | (s', false) => (s', .setJobProcess .SEND .NOT_FINISHED)
    | (s', true) => (s', .switch .PARSING)
  | .setJobProcess e c => (s.setJobProcess e, .unlock c)
  | .unlock c => ({ s with flag := true }, .ret c)
  | .ret c => (s, .ret c)

/-- `CreateJob` makes a job of the frame this step gives it, if it gives one. -/
def Accepts (a : Answers) (s : Slot) : Pc → Prop
  | .createJob len o => (createJob a i o (s.conn.view len)).isSome
  | _ => True

/-- The phase this step runs, if it runs one, succeeds. -/
def Succeeds (a : Answers) (s : Slot) (pc : Pc) : Prop :=
  s.Accepts i a pc ∧
    match pc with
    | .switch .EXECUTE => (s.executeReq a).2 = true
    | .switch .SEND => (s.sendRes a.sent).2 = true
    | _ => True

instance (a : Answers) (s : Slot) : DecidablePred (s.Accepts i a) := fun pc => by
  cases pc <;> simp only [Accepts] <;> infer_instance

instance (a : Answers) (s : Slot) : DecidablePred (s.Succeeds i a) := fun pc => by
  cases pc <;> simp only [Succeeds]
  case switch e => cases e <;> infer_instance
  all_goals infer_instance

/-- The machine run alone, one answer a step. -/
def solo (s : Slot) (pc : Pc) (as : List Answers) : Slot × Pc :=
  as.foldl (fun r a => r.1.step i a r.2) (s, pc)

/-! ## What each phase does -/

variable {i} {a : Answers} {s : Slot}

/-- A chunk the buffer took is behind what was there. -/
theorem recv_ok (hwf : s.conn.RecvWf) {chunk : Bytes} (hlen : chunk.length ≤ maxSockbuf)
    (hok : (s.recv chunk).2 = true) :
    (s.recv chunk).1.conn.RecvWf ∧
      (s.recv chunk).1.conn.recvBuffer.bytes = s.conn.recvBuffer.bytes ++ chunk :=
  hwf.store_ok hlen hok

/-- `CreateJob` refuses the message, or its job is stored; the message is noted either way. -/
theorem createReq_cases (a : Answers) (len o : Nat) (s : Slot) :
    (createJob a i o (s.conn.view len) = none ∧
      s.createReq i a len o =
        ({ s with hist := { s.hist with given := s.hist.given ++ [s.conn.view len] } }, false)) ∨
    (∃ j, createJob a i o (s.conn.view len) = some j ∧
      s.createReq i a len o =
        ({ s with
            job := some j
            hist := { s.hist with given := s.hist.given ++ [s.conn.view len] } }, true)) := by
  cases hj : createJob a i o (s.conn.view len) with
  | none => exact .inl ⟨rfl, by simp only [createReq, hj]⟩
  | some j => exact .inr ⟨j, rfl, by simp only [createReq, hj]⟩

/-- `Execute` succeeds with a response packet, or nothing changes. -/
theorem executeReq_cases (a : Answers) (s : Slot) :
    (∃ j p freed, s.job = some j ∧ j.execute a = ({ j with packet := some p }, true, freed) ∧
      p.origin = j.origin ∧
      s.executeReq a =
        ({ s with
            job := some { j with packet := some p }
            hist := { s.hist with executed := s.hist.executed ++ [p] } }, true)) ∨
    s.executeReq a = (s, false) := by
  cases hj : s.job with
  | none => exact .inr (by simp only [executeReq, hj])
  | some j =>
    rcases j.execute_cases a with ⟨p, freed, he, ho⟩ | ⟨freed, he⟩
    · exact .inl ⟨j, p, freed, rfl, he, ho, by simp only [executeReq, hj, he, Option.toList_some]⟩
    · right
      simp only [executeReq, hj, he]
      rw [← hj]

/-- `sendFunc` takes the packet, or nothing changes. -/
theorem sendRes_cases (sent : Bool) (s : Slot) :
    (∃ j p, s.job = some j ∧ j.packet = some p ∧ sent = true ∧
      s.sendRes sent =
        ({ s with
            job := none
            hist := { s.hist with sent := s.hist.sent ++ [p] } }, true)) ∨
    ((sent = false ∨ s.job.bind Job.packet = none) ∧ s.sendRes sent = (s, false)) := by
  cases hj : s.job with
  | none => exact .inr ⟨.inr rfl, by simp only [sendRes, hj]⟩
  | some j =>
    cases hp : j.packet with
    | none =>
      refine .inr ⟨.inr (by simpa using hp), ?_⟩
      simp only [sendRes, hj, Job.sendRes, hp, Option.isSome_none, Bool.false_eq_true, and_false,
        if_false]
      rw [← hj]
    | some p =>
      cases sent with
      | false =>
        refine .inr ⟨.inl rfl, ?_⟩
        simp only [sendRes, hj, Job.sendRes, Bool.false_eq_true, false_and, if_false]
        rw [← hj]
      | true =>
        refine .inl ⟨j, p, rfl, hp, rfl, ?_⟩
        simp only [sendRes, hj, Job.sendRes, hp, Option.isSome_some, and_self, if_true,
          Option.toList_some]

/-! ## What one step of the machine does to the lock -/

/-- A call that owns the lock keeps it, but for the step that releases it. -/
theorem step_critical (a : Answers) (s : Slot) {pc : Pc} (hc : pc.Critical) :
    (∃ c, pc = .unlock c) ∨ ((s.step i a pc).1.flag = s.flag ∧ (s.step i a pc).2.Critical) := by
  cases pc with
  | tryLock => exact absurd hc id
  | ret c => exact absurd hc id
  | unlock c => exact .inl ⟨c, rfl⟩
  | getJobProcess => exact .inr ⟨rfl, trivial⟩
  | setJobProcess e c => exact .inr ⟨rfl, trivial⟩
  | popReqMsg len => exact .inr ⟨rfl, trivial⟩
  | createJob len o =>
    right
    rcases createReq_cases (i := i) a len o s with ⟨-, h⟩ | ⟨j, -, h⟩ <;>
      simp only [step, h] <;> exact ⟨trivial, trivial⟩
  | switch e =>
    right
    cases e with
    | PARSING => simp only [step]; split <;> exact ⟨rfl, trivial⟩
    | EXECUTE =>
      rcases executeReq_cases a s with ⟨j, p, freed, -, -, -, h⟩ | h <;>
        simp only [step, h] <;> exact ⟨trivial, trivial⟩
    | SEND =>
      rcases sendRes_cases a.sent s with ⟨j, p, -, -, -, h⟩ | ⟨-, h⟩ <;>
        simp only [step, h] <;> exact ⟨trivial, trivial⟩

theorem step_recvWf {pc : Pc} (hwf : s.conn.RecvWf) : (s.step i a pc).1.conn.RecvWf := by
  cases pc with
  | tryLock => simp only [step]; split <;> exact hwf
  | getJobProcess => exact hwf
  | setJobProcess e c => exact ⟨hwf.buffer, hwf.capacity_eq⟩
  | unlock c => exact hwf
  | ret c => exact hwf
  | popReqMsg len => exact hwf.pop len
  | createJob len o =>
    rcases createReq_cases (i := i) a len o s with ⟨-, h⟩ | ⟨j, -, h⟩ <;>
      simp only [step, h] <;> exact hwf
  | switch e =>
    cases e with
    | PARSING => simp only [step]; split <;> exact hwf
    | EXECUTE =>
      rcases executeReq_cases a s with ⟨j, p, freed, -, -, -, h⟩ | h <;>
        simp only [step, h] <;> exact hwf
    | SEND =>
      rcases sendRes_cases a.sent s with ⟨j, p, -, -, -, h⟩ | ⟨-, h⟩ <;>
        simp only [step, h] <;> exact hwf

section Guarded
open TryLock (Guarded)
variable {W : Type*} [DecidableEq W] {pcs : W → Option Pc} {w : W} {pc : Pc}
  {R₀ : Slot → Prop} {R : Slot → Pc → Prop}

/-- One step of one call, for any property of the free slot and of the holder's point that
taking the lock, moving under it and releasing it preserve. -/
theorem guarded_step (h : Guarded Slot.flag Pc.Critical R₀ R s pcs) (hw : pcs w = some pc)
    (hlock : pc = .tryLock → s.flag = true → R₀ s → R { s with flag := false } .getJobProcess)
    (hmove : pc.Critical → (∀ c, pc ≠ .unlock c) → R s pc →
      R (s.step i a pc).1 (s.step i a pc).2)
    (hunlock : ∀ c, pc = .unlock c → R s pc → R₀ { s with flag := true }) :
    Guarded Slot.flag Pc.Critical R₀ R (s.step i a pc).1
      (Function.update pcs w (some (s.step i a pc).2)) := by
  by_cases hc : pc.Critical
  -- the holder: it releases the lock, or moves on inside
  · obtain ⟨hflag, hR⟩ := h.held w pc hw hc
    rcases step_critical (i := i) a s hc with ⟨c, rfl⟩ | ⟨hf, hc'⟩
    · exact h.release hw hc rfl (hunlock c rfl hR) id
    · have hne : ∀ c, pc ≠ .unlock c := by
        intro c he
        subst he
        exact absurd hc' id
      exact h.inside hw hc (hf.trans hflag) (hmove hc hne hR) hc'
  -- anyone else is at its `try_lock` or has returned
  · cases pc with
    | tryLock =>
      cases hf : s.flag with
      | true =>
        simp only [step, hf, if_true]
        exact h.acquire hf rfl (hlock rfl hf (h.free hf)) trivial
      | false =>
        simp only [step, hf, Bool.false_eq_true, if_false]
        exact h.idle (fun x hx => by rw [hw] at hx; cases hx; exact id)
          (fun x hx => by cases hx; exact id)
    | ret c =>
      exact h.idle (fun x hx => by rw [hw] at hx; cases hx; exact id)
        (fun x hx => by cases hx; exact id)
    | _ => exact absurd trivial hc

end Guarded

end Slot

end RacingGameServer
